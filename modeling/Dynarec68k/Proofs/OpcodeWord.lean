import Dynarec68k.Proofs.DecodedForm

namespace Dynarec68k

namespace Decode

variable (model : Model) {w : UInt16}

theorem moveFields_or {size mode reg bits : Nat} (hmode : mode < 8) (hreg : reg < 8)
    (hbits : bits < 64) :
    size <<< 12 ||| reg <<< 9 ||| mode <<< 6 ||| bits =
      4096 * size + 512 * reg + 64 * mode + bits := by
  have hhigh : size <<< 12 ||| reg <<< 9 = (8 * size + reg) <<< 9 := by
    rw [← Nat.shiftLeft_add_eq_or_of_lt (by rw [Nat.shiftLeft_eq]; omega)]
    simp only [Nat.shiftLeft_eq]
    omega
  have hlow : (8 * size + reg) <<< 9 ||| mode <<< 6 = (64 * size + 8 * reg + mode) <<< 6 := by
    rw [← Nat.shiftLeft_add_eq_or_of_lt (by rw [Nat.shiftLeft_eq]; omega)]
    simp only [Nat.shiftLeft_eq]
    omega
  rw [hhigh, hlow, ← Nat.shiftLeft_add_eq_or_of_lt hbits, Nat.shiftLeft_eq]
  omega

theorem move_line {form : Form} (hop : form.op = .move) (hvariant : form.variant ≠ .quick)
    (hopcode : form.opcode = w.toNat) : 1 ≤ w.toNat / 4096 ∧ w.toNat / 4096 ≤ 3 := by
  obtain ⟨op, variant, extra, src, dst⟩ := form
  dsimp only at hop hvariant
  subst hop
  have hword : 4096 * extra.moveBits + 512 * dst.register + 8 * (dst.field - dst.register) +
      src.field = w.toNat := by
    rw [← hopcode]
    change _ = Form.moveWord _
    simp only [Form.moveWord, hvariant, if_false]
  have hlt := w.toNat_lt
  have hdst := dst.field_bounds
  have hsrc := src.field_bounds
  cases extra with
  | size size =>
    have hbits : 1 ≤ size.moveBits.val ∧ size.moveBits.val ≤ 3 := by
      cases size <;> decide
    have hmove : (Extra.size size).moveBits = size.moveBits.val := rfl
    rw [hmove] at hword
    omega
  | cond condition =>
    have hmove : (Extra.cond condition).moveBits = 16 := rfl
    rw [hmove] at hword
    omega
  | none =>
    have hmove : Extra.none.moveBits = 16 := rfl
    rw [hmove] at hword
    omega

theorem form_eq_lineMove (hline : 1 ≤ w.toNat / 4096 ∧ w.toNat / 4096 ≤ 3) :
    form model w = lineMove model w := by
  have hval : (Word.field4 w 12).val = w.toNat / 4096 := by
    rw [Word.val_field4]
    omega
  have hcases : w.toNat / 4096 = 1 ∨ w.toNat / 4096 = 2 ∨ w.toNat / 4096 = 3 := by
    omega
  unfold form
  rcases hcases with h | h | h
  · rw [show Word.field4 w 12 = 1 from Fin.ext (hval.trans h)]
    rfl
  · rw [show Word.field4 w 12 = 2 from Fin.ext (hval.trans h)]
    rfl
  · rw [show Word.field4 w 12 = 3 from Fin.ext (hval.trans h)]
    rfl

theorem form_move :
    (form model w).Ensures fun form => form.op = .move → form.variant ≠ .quick →
      ∃ size mode reg bits, form.extra = .size size ∧ form.dst.modeReg = some (mode, reg) ∧
        form.src.eaBits = some bits ∧
        w.toNat = size.moveBits.val <<< 12 ||| reg.val <<< 9 ||| mode.val <<< 6 ||| bits := by
  by_cases hline : 1 ≤ w.toNat / 4096 ∧ w.toNat / 4096 ≤ 3
  · rw [form_eq_lineMove model hline]
    refine lineMove_ensures.mono ?_
    rintro _ ⟨size, src, dst, rfl, hsize, hsrc, hdst, -⟩ - -
    have hbits : src.eaBits = some (w.toNat % 64) := by
      rw [Operand.eaBits, hsrc.modeReg, Option.map_some]
      dsimp only
      rw [Word.val_field3, Word.val_field3]
      congr 1
      omega
    refine ⟨size, _, _, _, rfl, hdst, hbits, ?_⟩
    rw [moveFields_or (Fin.isLt _) (Fin.isLt _) (Nat.mod_lt _ (by decide)), hsize, upperReg_val,
      Word.val_field3]
    omega
  · refine (form_faithful model w).mono fun form hfaithful hop hvariant => ?_
    exact absurd (move_line hop hvariant hfaithful.opcode) hline

end Decode

namespace Instruction

theorem decode?_opcode {model : Model} {address : UInt32} {words : List UInt16}
    {inst : Instruction} (h : decode? model address words = .ok inst) :
    ∃ w rest, words = w :: rest ∧ inst.toForm.opcode = w.toNat ∧
      (Decode.form model w).run 1 rest = .ok (inst.toForm, inst.length / 2) := by
  obtain ⟨w, rest, hwords, hfaithful, hrun⟩ := decode?_faithful h
  exact ⟨w, rest, hwords, hfaithful.opcode, hrun⟩

end Instruction

open Instruction

/-- Instructions that agree in operation, variant, size or condition and operands have the same
opcode word, and the opcode word of a MOVE that is not quick is put together from its own size,
destination and source. -/
theorem opcode_recovered (model : Model) {address address' : UInt32} {words words' : List UInt16}
    {inst inst' : Instruction} (h : decode? model address words = .ok inst)
    (h' : decode? model address' words' = .ok inst') :
    (inst.op = inst'.op → inst.variant = inst'.variant → inst.extra = inst'.extra →
      inst.src = inst'.src → inst.dst = inst'.dst → words.head? = words'.head?) ∧
    (inst.op = .move → inst.variant ≠ .quick →
      ∃ w size mode reg bits, words.head? = some w ∧ inst.size? = some size ∧
        inst.dst.modeReg = some (mode, reg) ∧ inst.src.eaBits = some bits ∧
        w.toNat = size.moveBits.val <<< 12 ||| reg.val <<< 9 ||| mode.val <<< 6 ||| bits) := by
  obtain ⟨w, rest, rfl, hopcode, hrun⟩ := decode?_opcode h
  obtain ⟨w', rest', rfl, hopcode', -⟩ := decode?_opcode h'
  refine ⟨fun hop hvariant hextra hsrc hdst => ?_, fun hop hvariant => ?_⟩
  · have hform : inst.toForm = inst'.toForm := by
      rw [Form.eq_iff]
      exact ⟨hop, hvariant, hextra, hsrc, hdst⟩
    have hword : w = w' := by
      rw [← UInt16.toNat_inj, ← hopcode, ← hopcode', hform]
    rw [List.head?_cons, List.head?_cons, hword]
  · obtain ⟨size, mode, reg, bits, hextra, hdst, hsrc, hword⟩ :=
      (Decode.form_move model).of_run hrun hop hvariant
    refine ⟨w, size, mode, reg, bits, rfl, ?_, hdst, hsrc, hword⟩
    rw [Instruction.size?, hextra]

/-- MOVE.W (A0)+,8(A1) and its opcode word. -/
theorem opcode_recovered_move :
    ∃ inst, decode? .m68000 0x1000 [0x3358, 8] = .ok inst ∧ inst.op = .move ∧
      inst.variant ≠ .quick ∧ ∃ (w : UInt16) (size : Size) (mode reg : Fin 8) (bits : Nat),
        [0x3358, 8].head? = some w ∧ inst.size? = some size ∧ inst.dst.modeReg = some (mode, reg) ∧
        inst.src.eaBits = some bits ∧
        w.toNat = size.moveBits.val <<< 12 ||| reg.val <<< 9 ||| mode.val <<< 6 ||| bits := by
  have hdecode : decode? .m68000 0x1000 [0x3358, 8] =
      .ok ⟨.sized .move .word (.postInc 0) (.displaced 1 8), 0x1000, 4⟩ := rfl
  exact ⟨_, hdecode, rfl, nofun, (opcode_recovered .m68000 hdecode hdecode).2 rfl nofun⟩

end Dynarec68k
