import Dynarec68k.Proofs.EncodedLines

namespace Dynarec68k

open WordReader

variable {words : List UInt16} {model : Model} {address : UInt32} {inst : Instruction}

/-- Most extension words of one operand: a full extension word with two long displacements, or a
long address. -/
def Model.operandWords (model : Model) : Nat :=
  if model.is68020 then 5 else 2

theorem Model.two_le_operandWords (model : Model) : 2 ≤ model.operandWords := by
  cases model <;> decide

namespace Decode

variable {model' : Model} {mode reg : Fin 8} {w : UInt16}
  (ok : Bool) (operand : Operand) (size : Size)

theorem require_ensures : (require ok operand).Ensures fun _ => ok = true := by
  unfold require
  split
  · assumption
  · split <;> trivial

theorem require_false :
    ∃ e, require false operand = .fail e ∧ ∀ available, e ≠ .truncated available := by
  unfold require
  rw [if_neg Bool.false_ne_true]
  split <;> exact ⟨_, rfl, fun _ h => by cases h⟩

theorem require_within : AtMost 0 (require ok operand) := by
  cases ok with
  | true => trivial
  | false =>
    obtain ⟨e, he, hcause⟩ := require_false operand
    rw [he]
    exact .fail hcause

theorem isFull_eq_false (hmodel : model.is68020 = false) (ext : UInt16) :
    isFull model ext = false := by
  rw [isFull, hmodel, Bool.and_false]

theorem is68020_of_isFull {ext : UInt16} (h : isFull model ext = true) : model.is68020 = true := by
  rw [isFull, Bool.and_eq_true] at h
  exact h.2

theorem sizedDisplacement_within (field : Fin 4) : AtMost 2 (sizedDisplacement field) := by
  unfold sizedDisplacement
  split
  · exact (Fixed.next.within.map _).mono (by decide)
  · exact Fixed.nextLong.within.map _
  · exact .done 0

theorem fullExtension_within (ext : UInt16) : AtMost 4 (fullExtension model ext) := by
  unfold fullExtension
  split
  · exact .fail fun _ h => by cases h
  · exact (sizedDisplacement_within _).bind fun _ => (sizedDisplacement_within _).map _

namespace Addressing

variable {r r' : WordReader Operand} (h : Addressing model model' mode reg r r')
include h

theorem ensures : r.Ensures fun o => o.modeReg = some (mode, reg) ∧ o.Fits model := by
  cases h with
  | fixed hn hlead h hplain => exact hlead.ensures.bind fun v _ => ⟨h v, .plain (hplain v)⟩
  | index hfull h hbrief hscale =>
    intro position ext
    dsimp only
    split
    · exact (Ensures.always _).bind fun v _ => ⟨hfull position v, fun _ => is68020_of_isFull ‹_›⟩
    · refine ⟨h .., fun hextended => ?_⟩
      rw [hscale, IndexReg.scale, indexReg] at hextended
      cases hmodel : model.is68020 with
      | true => rfl
      | false => rw [hmodel] at hextended; cases hextended
  | refused => trivial

theorem within : AtMost model.operandWords r := by
  cases h with
  | fixed hn hlead h hplain =>
    exact (hlead.within.map _).mono (Nat.le_trans hn model.two_le_operandWords)
  | index hfull h hbrief hscale =>
    cases hmodel : model.is68020 with
    | true =>
      rw [Model.operandWords, hmodel, if_pos rfl]
      intro position ext
      dsimp only
      split
      · exact (fullExtension_within ext).map _
      · exact .done _
    | false =>
      rw [Model.operandWords, hmodel, if_neg Bool.false_ne_true]
      intro position ext
      dsimp only
      rw [isFull_eq_false hmodel, if_neg Bool.false_ne_true]
      exact .done _
  | refused => exact .fail fun _ h => by cases h

theorem fixed_or_barred (hmodel : model.is68020 = false) :
    ∃ m ≤ 2, Fixed (fun o => o.modeReg = some (mode, reg)) m r ∨ Barred m r := by
  cases h with
  | @fixed _ n _ _ hn hlead h hplain =>
    exact ⟨0 + n, by omega, .inl (hlead.bind fun v _ => .done (h v))⟩
  | index hfull h hbrief hscale =>
    refine ⟨1, by decide, .inl (.word fun position ext => ?_)⟩
    rw [isFull_eq_false hmodel, if_neg Bool.false_ne_true]
    exact .done (h ..)
  | refused => exact ⟨0, by decide, .inr (.fail _)⟩

theorem checked_rigid (hmodel : model.is68020 = false) {α β : Type} {c : Operand → Bool}
    (hkind : ∀ o o', o.Alike o' → c o = c o') {n : Nat} {f : α → Operand → WordReader β}
    (hf : Rigid n fun v : α × Operand => f v.1 v.2) :
    Rigid (2 + n) fun v => r >>= fun o => require (c o) o >>= fun _ => f v o := by
  obtain ⟨m, hm, hfixed | hbarred⟩ := h.fixed_or_barred hmodel
  · have hsame {o : Operand} (hmode : o.modeReg = some (mode, reg)) :
        c o = c (.plain mode reg) :=
      hkind o _ (Operand.alike_plain hmode)
    cases hallowed : c (.plain mode reg) with
    | true =>
      obtain ⟨k, hk, hf | hf⟩ := hf
      · refine ⟨k + m, by omega, .inl fun v => hfixed.bind fun o hmode => ?_⟩
        rw [hsame hmode, hallowed]
        exact hf (v, o)
      · refine ⟨k + m, by omega, .inr fun v => hfixed.barred fun o hmode => ?_⟩
        rw [hsame hmode, hallowed]
        exact hf (v, o)
    | false =>
      refine ⟨0 + m, by omega, .inr fun v => hfixed.barred fun o hmode => ?_⟩
      obtain ⟨e, he, -⟩ := require_false o
      rw [hsame hmode, hallowed, he]
      exact .fail e
  · exact ⟨m, by omega, .inr fun v => hbarred.bind _⟩

end Addressing

theorem operandOf_addressing (model model' : Model) (w : UInt16) (size : Size) :
    Addressing model model' (Word.field3 w 3) (Word.field3 w 0) (operandOf model w size)
      (operandOf model' w size) :=
  effectiveAddress_addressing ..

theorem operandOf_ensures (model : Model) (w : UInt16) (size : Size) :
    (operandOf model w size).Ensures (Operand.ReadFrom model w) :=
  (operandOf_addressing model model w size).ensures.mono fun _ h => ⟨h.1, h.2⟩

theorem moveDestination_ensures :
    (moveDestination model w size).Ensures fun dst =>
      dst.modeReg = some (Word.field3 w 6, upperReg w) ∧ dst.Fits model ∧ dst.isPlace = true := by
  unfold moveDestination
  split
  · rename_i hmode
    split
    · trivial
    · rw [hmode]
      exact ⟨rfl, .plain rfl, rfl⟩
  · exact (effectiveAddress_addressing model model _ _ size).ensures.bind fun dst hdst =>
      (require_ensures _ dst).bind fun _ hallowed =>
        ⟨hdst.1, hdst.2, Operand.isPlace_of_isDataAlterable hallowed⟩

theorem lineMove_ensures :
    (lineMove model w).Ensures fun form => ∃ size src dst, form = .sized .move size src dst ∧
      size.moveBits.val = w.toNat / 4096 % 4 ∧ src.ReadFrom model w ∧
      dst.modeReg = some (Word.field3 w 6, upperReg w) ∧ dst.Fits model ∧ dst.isPlace = true := by
  have hbits : ∀ field size, Size.ofMoveBits field = some size → size.moveBits = field := by
    decide
  unfold lineMove
  cases hsize : Size.ofMoveBits (Word.field2 w 12) with
  | none => trivial
  | some size =>
    refine (operandOf_ensures model w size).bind fun src hsrc => (Ensures.always _).bind fun _ _ =>
      (moveDestination_ensures size).bind fun dst hdst => ⟨size, src, dst, rfl, ?_, hsrc, hdst⟩
    rw [hbits _ _ hsize]
    exact Word.val_field2 w 12

theorem lineMove_faithful (hline : w.toNat / 4096 ≤ 3) :
    (lineMove model w).Ensures (Form.Faithful model w) := by
  refine lineMove_ensures.mono ?_
  rintro _ ⟨size, src, dst, rfl, hsize, hsrc, hdst, hfits, hplace⟩
  refine .early rfl (by decide) hsrc.fits hfits ?_ rfl ?_
  · exact Bool.and_eq_true_iff.mpr ⟨hsrc.value, hplace⟩
  · obtain ⟨hfield, hregister⟩ := Operand.field_register hdst
    change 4096 * size.moveBits.val + 512 * dst.register + 8 * (dst.field - dst.register) +
      src.field = _
    rw [hsize, hfield, hregister, hsrc.field, upperReg_val, Word.val_field3]
    omega

theorem moveDestination_within : AtMost model.operandWords (moveDestination model w size) := by
  unfold moveDestination
  split
  · split
    · exact .fail fun _ h => by cases h
    · exact .done _
  · exact (effectiveAddress_addressing model model _ _ size).within.bind fun dst =>
      (require_within _ dst).map _

theorem lineMove_within : AtMost (2 * model.operandWords) (lineMove model w) := by
  unfold lineMove
  cases Size.ofMoveBits (Word.field2 w 12) with
  | none => exact .fail fun _ h => by cases h
  | some size =>
    refine ((operandOf_addressing model model w size).within.bind fun src =>
      (require_within _ src).bind fun _ => (moveDestination_within size).map _).mono ?_
    omega

theorem done_rigid {α β : Type} (f : α → β) : Rigid 0 fun v => .done (f v) :=
  ⟨0, Nat.le_refl 0, .inl fun _ => .done trivial⟩

theorem moveDestination_rigid (hmodel : model.is68020 = false) (size : Size) :
    Rigid 2 fun _ : Unit => moveDestination model w size := by
  unfold moveDestination
  split
  · split
    · exact ⟨0, by decide, .inr fun _ => .fail _⟩
    · exact ⟨0, by decide, .inl fun _ => .done trivial⟩
  · exact (effectiveAddress_addressing model model _ _ size).checked_rigid hmodel
      (f := fun _ dst => .done dst) (fun _ _ h => h.dataAlterable) (done_rigid _)

theorem lineMove_rigid (hmodel : model.is68020 = false) :
    Rigid 4 fun _ : Unit => lineMove model w := by
  unfold lineMove
  cases Size.ofMoveBits (Word.field2 w 12) with
  | none => exact ⟨0, by decide, .inr fun _ => .fail _⟩
  | some size =>
    refine (operandOf_addressing model model w size).checked_rigid hmodel (n := 2)
      (fun _ _ h => by rw [h.addressRegister]) ?_
    obtain ⟨m, hm, h | h⟩ := moveDestination_rigid (w := w) hmodel size
    · exact ⟨0 + m, by omega, .inl fun v => (h ()).bind fun _ _ => .done trivial⟩
    · exact ⟨m, hm, .inr fun v => (h ()).bind _⟩

namespace Encoding

variable {r r' : WordReader Form} (h : Encoding model model' w r r')
include h

theorem ensures : r.Ensures (Form.Faithful model w) := by
  cases h with
  | refused => trivial
  | fixed hn hlead hplain h => exact hlead.ensures.bind fun v _ => h v
  | @operand _ _ _ size _ _ _ hn hlead hkind hmore hends h =>
    exact hlead.ensures.bind fun v _ => (operandOf_ensures model w size).bind fun o ho =>
      (require_ensures _ o).bind fun _ hallowed => h v o ho hallowed
  | reread h => exact h
  | move hline => exact lineMove_faithful hline.2

theorem within : AtMost (2 * model.operandWords) r := by
  have htwo := model.two_le_operandWords
  cases h with
  | refused h => exact .fail h
  | fixed hn hlead hplain h => exact (hlead.within.map _).mono (by omega)
  | @operand _ _ _ size _ _ _ hn hlead hkind hmore hends h =>
    refine (hlead.within.bind fun v => (operandOf_addressing model model w size).within.bind
      fun o => (require_within _ o).map _).mono ?_
    omega
  | reread h => exact .done _
  | move => exact lineMove_within

theorem rigid (hmodel : model.is68020 = false) : Rigid 4 fun _ : Unit => r := by
  cases h with
  | refused h => exact ⟨0, by decide, .inr fun _ => .fail _⟩
  | @fixed _ n _ _ hn hlead hplain h =>
    exact ⟨0 + n, by omega, .inl fun _ => hlead.bind fun _ _ => .done trivial⟩
  | @operand _ n _ size _ _ f hn hlead hkind hmore hends h =>
    obtain ⟨m, hm, h | h⟩ := (operandOf_addressing model model w size).checked_rigid hmodel
      (f := fun v o => .done (f v o)) hkind (done_rigid _)
    · exact ⟨m + n, by omega, .inl fun _ => hlead.bind fun v _ => h v⟩
    · exact ⟨m + n, by omega, .inr fun _ => hlead.barred fun v _ => h v⟩
  | reread h => exact ⟨0, by decide, .inl fun _ => .done trivial⟩
  | move => exact lineMove_rigid hmodel

end Encoding

theorem form_faithful (model : Model) (w : UInt16) :
    (form model w).Ensures (Form.Faithful model w) :=
  (form_encoding (.refl model) w).ensures

theorem form_rigid (hmodel : model.is68020 = false) (w : UInt16) :
    Rigid 4 fun _ : Unit => form model w :=
  (form_encoding (.refl model) w).rigid hmodel

end Decode

namespace Instruction

theorem decode?_eq_ok (h : decode? model address words = .ok inst) :
    ∃ form count, (Decode.reader model).run 0 words = .ok (form, count) ∧
      inst = { form with address := address, length := 2 * count } := by
  unfold decode? at h
  split at h
  · rename_i form count hrun
    exact ⟨form, count, hrun, (Except.ok.inj h).symm⟩
  · cases h

theorem decode?_of_run {form : Form} {count : Nat}
    (hrun : (Decode.reader model).run 0 words = .ok (form, count)) (address : UInt32) :
    decode? model address words =
      .ok { form with address := address, length := 2 * count } := by
  unfold decode?
  rw [hrun]

/-- Words that are an instruction have a faithful form. -/
theorem decode?_faithful (h : decode? model address words = .ok inst) :
    ∃ w rest, words = w :: rest ∧ inst.toForm.Faithful model w ∧
      (Decode.form model w).run 1 rest = .ok (inst.toForm, inst.length / 2) := by
  obtain ⟨form, count, hrun, rfl⟩ := decode?_eq_ok h
  cases words with
  | nil => cases hrun
  | cons w rest =>
    have hrest : (Decode.form model w).run 1 rest = .ok (form, count) := hrun
    refine ⟨w, rest, rfl, (Decode.form_faithful model w).of_run hrest, ?_⟩
    rw [hrest]
    dsimp only
    rw [Nat.mul_div_cancel_left _ Nat.zero_lt_two]

theorem decode_eq (model : Model) (address : UInt32) (words : List UInt16) :
    decode? model address words = .ok (decode model address words) ∨
      decode model address words = ofInvalid address (words.headD 0) := by
  unfold decode
  cases decode? model address words with
  | ok inst => exact .inl rfl
  | error => exact .inr rfl

theorem decode_shaped (model : Model) (address : UInt32) (words : List UInt16) :
    (decode model address words).shaped = true := by
  rcases decode_eq model address words with h | h
  · obtain ⟨_, _, -, hfaithful, -⟩ := decode?_faithful h
    exact hfaithful.shaped
  · rw [h]
    rfl

theorem decode_apt (model : Model) (address : UInt32) (words : List UInt16) :
    (decode model address words).op = .invalid ∨ (decode model address words).apt = true := by
  rcases decode_eq model address words with h | h
  · obtain ⟨_, _, -, hfaithful, -⟩ := decode?_faithful h
    exact .inr hfaithful.apt
  · rw [h]
    exact .inl rfl

theorem decode_length_le (model : Model) (address : UInt32) (words : List UInt16) :
    (decode model address words).length ≤ max 2 (2 * words.length) := by
  unfold decode decode?
  cases hrun : (Decode.reader model).run 0 words with
  | ok result =>
    have hcount : result.2 ≤ 0 + words.length := WordReader.run_le hrun
    change 2 * result.2 ≤ _
    omega
  | error => exact Nat.le_max_left _ _

theorem decode_cons (model : Model) (address : UInt32) (w : UInt16) (rest : List UInt16) :
    decode model address (w :: rest) =
      match (Decode.form model w).run 1 rest with
      | .ok (form, count) => { form with address := address, length := 2 * count }
      | .error _ => ofInvalid address w := by
  have hreader : (Decode.reader model).run 0 (w :: rest) = (Decode.form model w).run 1 rest := rfl
  unfold decode decode?
  rw [hreader]
  cases (Decode.form model w).run 1 rest <;> rfl

variable (hmodel : model.is68020 = false)
include hmodel

theorem decode_length_le_ten (address : UInt32) (words : List UInt16) :
    (decode model address words).length ≤ 10 := by
  cases words with
  | nil => exact (by decide : 2 ≤ 10)
  | cons w rest =>
    rw [decode_cons]
    cases hrun : (Decode.form model w).run 1 rest with
    | ok result =>
      have hcount : result.2 ≤ 1 + 4 := (Decode.form_rigid hmodel w).run_le () hrun
      change 2 * result.2 ≤ 10
      omega
    | error => exact (by decide : 2 ≤ 10)

/-- An instruction stays the same as long as its own words do. -/
theorem decode_congr {address : UInt32} {words' : List UInt16}
    (hlength : words'.length = words.length)
    (hsame : words'.take ((decode model address words).length / 2) =
      words.take ((decode model address words).length / 2)) :
    decode model address words' = decode model address words := by
  cases words with
  | nil => rw [List.eq_nil_of_length_eq_zero hlength]
  | cons w rest =>
    cases words' with
    | nil => exact absurd hlength.symm (Nat.succ_ne_zero _)
    | cons w' rest' =>
      rw [decode_cons] at hsame
      rw [decode_cons, decode_cons]
      cases hrun : (Decode.form model w).run 1 rest with
      | ok result =>
        obtain ⟨form, count⟩ := result
        have hpositive : 1 ≤ count := (WordReader.run_congr hrun rfl).1
        obtain ⟨k, rfl⟩ : ∃ k, count = k + 1 := ⟨count - 1, by omega⟩
        rw [hrun] at hsame
        simp only [Nat.mul_div_cancel_left _ (Nat.zero_lt_two), List.take_succ_cons] at hsame
        obtain ⟨rfl, htail⟩ := List.cons.inj hsame
        rw [(WordReader.run_congr hrun htail).2]
      | error e =>
        rw [hrun] at hsame
        simp only [ofInvalid, Nat.div_self Nat.zero_lt_two, List.take_succ_cons] at hsame
        obtain ⟨rfl, -⟩ := List.cons.inj hsame
        obtain ⟨e', hrun'⟩ :=
          (Decode.form_rigid hmodel w').run_error () (Nat.succ.inj hlength) hrun
        rw [hrun']

end Instruction

end Dynarec68k
