import Dynarec68k.Proofs.InstructionExtent

namespace Dynarec68k

namespace WordReader

variable {α β : Type}

/-- A failure over reserved bits in a full extension word, one of the words read so far. -/
def Reserved (model : Model) (used : List UInt16) (e : DecodeError) : Prop :=
  ∃ ext ∈ used, Decode.isFull model ext = true ∧ Decode.fullExtensionReserved ext = true ∧
    e = .reservedExtension ext

/-- A reader that has read `used` comes to a value in `Q`, whatever words follow, unless one of
them has reserved bits. -/
inductive Grants (model : Model) (Q : α → Prop) : List UInt16 → WordReader α → Prop
  | done {used : List UInt16} {v : α} (h : Q v) : Grants model Q used (.done v)
  | reserved {used : List UInt16} {e : DecodeError} (h : Reserved model used e) :
      Grants model Q used (.fail e)
  | word {used : List UInt16} {next : Nat → UInt16 → WordReader α}
      (h : ∀ position w, Grants model Q (w :: used) (next position w)) :
      Grants model Q used (.word next)

/-- A reader fails in the end, whatever words it is given. -/
inductive Refuses : WordReader α → Prop
  | fail (e : DecodeError) : Refuses (.fail e)
  | word {next : Nat → UInt16 → WordReader α} (h : ∀ position w, Refuses (next position w)) :
      Refuses (.word next)

/-- The words a reader has yet to ask for make no difference to whether it succeeds, but for
reserved bits. -/
def Decided (model : Model) (Q : α → Prop) (r : WordReader α) : Prop :=
  (∀ used, Grants model Q used r) ∨ Refuses r

variable {model : Model} {Q : α → Prop} {r : WordReader α}

namespace Grants

variable {used : List UInt16}

theorem bind {P : β → Prop} {f : α → WordReader β} (h : Grants model Q used r)
    (hf : ∀ v, Q v → ∀ used', Grants model P used' (f v)) : Grants model P used (r >>= f) := by
  induction h with
  | done h => exact hf _ h _
  | reserved h => exact .reserved h
  | word h ih => exact .word ih

theorem refuses {f : α → WordReader β} (h : Grants model Q used r) (hf : ∀ v, Q v → Refuses (f v)) :
    Refuses (r >>= f) := by
  induction h with
  | done h => exact hf _ h
  | reserved h => exact .fail _
  | word h ih => exact .word ih

/-- With words enough a reader that grants comes to a value, or to reserved bits. -/
theorem run (h : Grants model Q used r) (position : Nat) {n : Nat} {words : List UInt16}
    (hwithin : AtMost n r) (hlength : n ≤ words.length) :
    (∃ v count, r.run position words = .ok (v, count) ∧ Q v) ∨
      ∃ e, r.run position words = .error e ∧ Reserved model (words ++ used) e := by
  induction h generalizing n position words with
  | done h => exact .inl ⟨_, _, rfl, h⟩
  | reserved h =>
    obtain ⟨ext, hmem, hext⟩ := h
    exact .inr ⟨_, rfl, ext, List.mem_append_right _ hmem, hext⟩
  | word h ih =>
    cases n with
    | zero => exact absurd hwithin not_false
    | succ n =>
      cases words with
      | nil => exact absurd hlength (Nat.not_succ_le_zero n)
      | cons w rest =>
        have hrest := Nat.le_of_succ_le_succ hlength
        refine (ih position w (position + 1) (hwithin position w) hrest).imp_right ?_
        rintro ⟨e, hrun, ext, hmem, hext⟩
        exact ⟨e, hrun, ext, List.perm_middle.mem_iff.mp hmem, hext⟩

end Grants

namespace Refuses

theorem bind (h : Refuses r) (f : α → WordReader β) : Refuses (r >>= f) := by
  induction h with
  | fail e => exact .fail e
  | word h ih => exact .word ih

theorem run (h : Refuses r) (position : Nat) (words : List UInt16) :
    ∃ e, r.run position words = .error e := by
  induction h generalizing position words with
  | fail e => exact ⟨e, rfl⟩
  | word h ih =>
    cases words with
    | nil => exact ⟨_, rfl⟩
    | cons w rest => exact ih position w _ rest

end Refuses

namespace Decided

theorem done {v : α} (h : Q v) : Decided model Q (.done v) :=
  .inl fun _ => .done h

theorem fail (e : DecodeError) : Decided model Q (.fail e : WordReader α) :=
  .inr (.fail e)

theorem bind {P : β → Prop} {f : α → WordReader β} (h : Decided model Q r)
    (hf : (∀ v, Q v → ∀ used, Grants model P used (f v)) ∨ ∀ v, Q v → Refuses (f v)) :
    Decided model P (r >>= f) := by
  rcases h with hgrants | hrefuses
  · rcases hf with hf | hf
    · exact .inl fun used => (hgrants used).bind hf
    · exact .inr ((hgrants []).refuses hf)
  · exact .inr (hrefuses.bind f)

theorem after {P : β → Prop} {f : α → WordReader β} (h : ∀ used, Grants model Q used r)
    (hf : (∀ v, Q v → ∀ used, Grants model P used (f v)) ∨ ∀ v, Q v → Refuses (f v)) :
    Decided model P (r >>= f) :=
  bind (.inl h) hf

end Decided

theorem Fixed.grants {n : Nat} (h : Fixed Q n r) (used : List UInt16) :
    Grants model Q used r := by
  induction h generalizing used with
  | done h => exact .done h
  | word h ih => exact .word fun position w => ih position w _

end WordReader

namespace Decode

open WordReader

variable {model model' : Model} {mode reg : Fin 8} {w : UInt16} {r r' : WordReader Operand}

theorem sizedDisplacement_grants (field : Fin 4) (used : List UInt16) :
    Grants model (fun _ => True) used (sizedDisplacement field) := by
  unfold sizedDisplacement
  split
  · exact (Fixed.next.grants used).bind fun _ _ _ => .done trivial
  · exact (Fixed.nextLong.grants used).bind fun _ _ _ => .done trivial
  · exact .done trivial

/-- The only place where a word behind the opcode can be refused for itself. -/
theorem fullExtension_grants {ext : UInt16} {used : List UInt16} (hmem : ext ∈ used)
    (hfull : isFull model ext = true) :
    Grants model (fun _ => True) used (fullExtension model ext) := by
  unfold fullExtension
  split
  · rename_i hreserved
    exact .reserved ⟨ext, hmem, hfull, hreserved, rfl⟩
  · exact (sizedDisplacement_grants _ used).bind fun _ _ used' =>
      (sizedDisplacement_grants _ used').bind fun _ _ _ => .done trivial

theorem Addressing.decided (h : Addressing model model' mode reg r r') :
    Decided model (fun o => o.modeReg = some (mode, reg) ∧ o.Fits model) r := by
  have hensures := h.ensures
  cases h with
  | fixed hn hlead h hplain =>
    exact .inl fun used => (hlead.grants used).bind fun v _ _ => .done ⟨h v, .plain (hplain v)⟩
  | index hfull h hbrief hscale =>
    refine .inl fun used => .word fun position ext => ?_
    have hext := hensures position ext
    dsimp only at hext
    split at hext
    · rename_i hform
      rw [if_pos hform]
      exact (fullExtension_grants List.mem_cons_self hform).bind fun v _ _ =>
        .done ⟨hfull position v, fun _ => is68020_of_isFull hform⟩
    · rw [if_neg ‹_›]
      exact .done hext
  | refused => exact .fail _

theorem Addressing.settled (h : Addressing model model' mode reg r r') {c : Operand → Bool}
    (hkind : ∀ o o', o.Alike o' → c o = c o') {α : Type} :
    (∀ {Q : α → Prop} {f : Operand → WordReader α},
        (∀ o, o.modeReg = some (mode, reg) ∧ o.Fits model → c o = true →
          ∀ used, Grants model Q used (f o)) →
        ∀ used, Grants model Q used (r >>= fun o => require (c o) o >>= fun _ => f o)) ∨
      ∀ f : Operand → WordReader α, Refuses (r >>= fun o => require (c o) o >>= fun _ => f o) := by
  rcases h.decided with hgrants | hrefuses
  · have hsame {o : Operand} (ho : o.modeReg = some (mode, reg)) : c o = c (.plain mode reg) :=
      hkind o _ (Operand.alike_plain ho)
    cases hallowed : c (.plain mode reg) with
    | true =>
      refine .inl fun hf used => (hgrants used).bind fun o ho used' => ?_
      have hok := (hsame ho.1).trans hallowed
      rw [hok]
      exact hf o ho hok used'
    | false =>
      refine .inr fun f => (hgrants []).refuses fun o ho => ?_
      obtain ⟨e, he, -⟩ := require_false o
      rw [hsame ho.1, hallowed, he]
      exact .fail e
  · exact .inr fun f => hrefuses.bind _

theorem moveDestination_decided (size : Size) :
    Decided model (fun _ => True) (moveDestination model w size) := by
  unfold moveDestination
  split
  · split
    · exact .fail _
    · exact .done trivial
  · exact ((effectiveAddress_addressing model model _ _ size).settled
      fun _ _ h => h.dataAlterable).imp (fun h => h fun _ _ _ _ => .done trivial) fun h => h _

theorem lineMove_decided : Decided model (·.apt = true) (lineMove model w) := by
  unfold lineMove
  cases Size.ofMoveBits (Word.field2 w 12) with
  | none => exact .fail _
  | some size =>
    have hsrc := operandOf_addressing model model w size
    have hdst : Decided model (fun _ => True) (moveDestination model w size) :=
      moveDestination_decided size
    rcases hdst with hdst | hdst
    · exact (hsrc.settled fun _ _ h => by rw [h.addressRegister]).imp
        (fun h => h fun _ _ _ used => (hdst used).bind fun _ _ _ => .done rfl) fun h => h _
    · refine hsrc.decided.bind (.inr fun src _ => ?_)
      unfold require
      split
      · exact hdst.bind _
      · split <;> exact .fail _

theorem Encoding.decided {r r' : WordReader Form} (h : Encoding model model' w r r') :
    Decided model (·.apt = true) r := by
  cases h with
  | refused => exact .fail _
  | fixed hn hlead hplain h =>
    exact .inl fun used => (hlead.grants used).bind fun v _ _ => .done (h v).apt
  | @operand _ _ _ size _ _ _ hn hlead hkind hmore hends h =>
    refine Decided.after hlead.grants ?_
    refine ((operandOf_addressing model model w size).settled hkind).imp (fun hsettled v _ => ?_)
      fun hsettled v _ => hsettled _
    exact hsettled fun o ho hok _ => .done (h v o ⟨ho.1, ho.2⟩ hok).apt
  | reread h => exact .done h.apt
  | move => exact lineMove_decided

theorem form_settles (model : Model) (w : UInt16) : Decided model (·.apt = true) (form model w) :=
  (form_encoding (.refl model) w).decided

end Decode

open Instruction

/-- Words are an instruction, unless none of those that begin with the same one are, or one of them
is a full extension word with reserved bits. -/
theorem decoded_or_reserved {model : Model} {w : UInt16}
    (h : ∀ used, WordReader.Grants model (·.apt = true) used (Decode.form model w))
    (address : UInt32) {rest : List UInt16} (hlength : 10 ≤ rest.length) :
    (decode model address (w :: rest)).op ≠ .invalid ∨
      ∃ ext ∈ rest, Decode.isFull model ext = true ∧ Decode.fullExtensionReserved ext = true ∧
        decode? model address (w :: rest) = .error (.reservedExtension ext) := by
  have hwords : 2 * model.operandWords ≤ rest.length := by
    cases model <;> exact Nat.le_trans (by decide) hlength
  rcases (h []).run 1 (Decode.form_within model w) hwords with
    ⟨form, count, hrun, hform⟩ | ⟨e, hrun, ext, hmem, hfull, hreserved, rfl⟩
  · left
    have hrun : (Decode.reader model).run 0 (w :: rest) = .ok (form, count) := hrun
    rw [decode, decode?_of_run hrun]
    exact Form.op_ne_invalid hform
  · right
    rw [List.append_nil] at hmem
    refine ⟨ext, hmem, hfull, hreserved, ?_⟩
    have hrun : (Decode.reader model).run 0 (w :: rest) = .error (.reservedExtension ext) := hrun
    rw [decode?, hrun]

theorem refused_of_refuses {model : Model} {w : UInt16}
    (h : WordReader.Refuses (Decode.form model w)) (address : UInt32) (rest : List UInt16) :
    (decode model address (w :: rest)).op = .invalid := by
  obtain ⟨e, hrun⟩ := h.run 1 rest
  have hrun : (Decode.reader model).run 0 (w :: rest) = .error e := hrun
  rw [decode, decode?, hrun]
  rfl

/-- Of words that begin with the same opcode word, and are enough for any instruction, either all or
none are refused, but for those in which the last model meets a full extension word with reserved
bits. -/
theorem refusal_by_opcode (model : Model) (address address' : UInt32) (w : UInt16)
    (rest rest' : List UInt16) (h : 10 ≤ rest.length) (h' : 10 ≤ rest'.length) :
    ((decode model address (w :: rest)).op = .invalid ↔
        (decode model address' (w :: rest')).op = .invalid) ∨
      model = .m68020 ∧ ∃ ext, Word.bit ext 8 = true ∧ Decode.fullExtensionReserved ext = true ∧
        (ext ∈ rest ∧ decode? model address (w :: rest) = .error (.reservedExtension ext) ∨
          ext ∈ rest' ∧ decode? model address' (w :: rest') = .error (.reservedExtension ext)) := by
  have hmodel {ext : UInt16} (hfull : Decode.isFull model ext = true) :
      Word.bit ext 8 = true ∧ model = .m68020 := by
    rw [Decode.isFull, Bool.and_eq_true] at hfull
    exact hfull.imp_right fun h => by cases model <;> first | rfl | cases h
  rcases Decode.form_settles model w with hgrants | hrefuses
  · rcases decoded_or_reserved hgrants address h with hok | ⟨ext, hmem, hfull, hreserved, hrun⟩
    · rcases decoded_or_reserved hgrants address' h' with hok' | ⟨ext, hmem, hfull, hreserved, hrun⟩
      · exact .inl (iff_of_false hok hok')
      · exact .inr ⟨(hmodel hfull).2, ext, (hmodel hfull).1, hreserved, .inr ⟨hmem, hrun⟩⟩
    · exact .inr ⟨(hmodel hfull).2, ext, (hmodel hfull).1, hreserved, .inl ⟨hmem, hrun⟩⟩
  · exact .inl (iff_of_true (refused_of_refuses hrefuses address rest)
      (refused_of_refuses hrefuses address' rest'))

/-- CHK2 with a bad address is refused by its opcode word, whether or not its extension words look
like full ones with reserved bits. -/
theorem refusal_by_opcode_bounds :
    (decode .m68020 0 [0x00C0, 0x0108, 0x0108, 0, 0, 0, 0, 0, 0, 0, 0]).op = .invalid ↔
      (decode .m68020 0 [0x00C0, 0, 0, 0, 0, 0, 0, 0, 0, 0, 0]).op = .invalid := by
  rcases refusal_by_opcode .m68020 0 0 0x00C0 [0x0108, 0x0108, 0, 0, 0, 0, 0, 0, 0, 0]
      [0, 0, 0, 0, 0, 0, 0, 0, 0, 0] (by decide) (by decide) with
    h | ⟨-, ext, -, -, ⟨-, hrun⟩ | ⟨-, hrun⟩⟩
  · exact h
  · cases hrun
  · cases hrun

/-- MOVE.L from an indexed address is refused for bit 3 of its extension word, which no other word
tells. -/
theorem refusal_by_extension :
    ∃ rest rest' : List UInt16, 10 ≤ rest.length ∧ 10 ≤ rest'.length ∧
      (decode .m68020 0 (0x2030 :: rest)).op = .invalid ∧
      (decode .m68020 0 (0x2030 :: rest')).op ≠ .invalid :=
  ⟨[0x0118, 0, 0, 0, 0, 0, 0, 0, 0, 0], [0x0110, 0, 0, 0, 0, 0, 0, 0, 0, 0], by decide, by decide,
    rfl, nofun⟩

end Dynarec68k
