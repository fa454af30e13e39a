import Dynarec68k.Proofs.DecodedForm

namespace Dynarec68k

variable {rest used words : List UInt16} {count position : Nat} {ext w : UInt16}

namespace WordReader

variable {α β : Type}

/-- Every result of a reader that has `used` behind it satisfies `Q`, together with all the words
read by then. -/
def Yields (Q : α → List UInt16 → Prop) : WordReader α → List UInt16 → Prop
  | .done v, used => Q v used
  | .fail _, _ => True
  | .word next, used => ∀ position w, (next position w).Yields Q (used ++ [w])

/-- Two readers with `used` behind them go the same way wherever the first one succeeds, or part
before the first one comes to results that are all `Apart`. -/
inductive Upgrades (Apart : α → List UInt16 → Prop) :
    WordReader α → WordReader α → List UInt16 → Prop
  | done (v : α) (used : List UInt16) : Upgrades Apart (.done v) (.done v) used
  | fail (e : DecodeError) (r : WordReader α) (used : List UInt16) :
      Upgrades Apart (.fail e) r used
  | word {next next' : Nat → UInt16 → WordReader α} {used : List UInt16}
      (h : ∀ position w, Upgrades Apart (next position w) (next' position w) (used ++ [w])) :
      Upgrades Apart (.word next) (.word next') used
  | apart {r : WordReader α} (r' : WordReader α) {used : List UInt16} (h : r.Yields Apart used) :
      Upgrades Apart r r' used

theorem take_of_run {r : WordReader α} {v : α} (hrun : r.run (position + 1) rest = .ok (v, count))
    (used : List UInt16) (w : UInt16) :
    used ++ (w :: rest).take (count - position) =
      used ++ [w] ++ rest.take (count - (position + 1)) := by
  have hle : position + 1 ≤ count := (run_congr hrun rfl).1
  rw [show count - position = count - (position + 1) + 1 by omega, List.take_succ_cons,
    List.append_assoc, List.singleton_append]

namespace Yields

variable {Q : α → List UInt16 → Prop} {r : WordReader α}

theorem bind {P : β → List UInt16 → Prop} {f : α → WordReader β} (h : r.Yields Q used)
    (hf : ∀ v used', Q v used' → (f v).Yields P used') : (r >>= f).Yields P used := by
  induction r generalizing used with
  | done v => exact hf v used h
  | fail e => trivial
  | word next ih => exact fun position w => ih position w (h position w)

theorem of_append {P : List UInt16 → Prop} (h : ∀ more, P (used ++ more)) (r : WordReader α) :
    r.Yields (fun _ used' => P used') used := by
  induction r generalizing used with
  | done v =>
    have hnone := h []
    rwa [List.append_nil] at hnone
  | fail e => trivial
  | word next ih =>
    intro position w
    refine ih position w fun more => ?_
    rw [List.append_assoc]
    exact h ([w] ++ more)

theorem second (h : used[1]? = some ext) (r : WordReader α) :
    r.Yields (fun _ used' => used'[1]? = some ext) used := by
  refine of_append (fun more => ?_) r
  rw [List.getElem?_append_left (List.getElem?_eq_some_iff.mp h).1, h]

theorem of_run (h : r.Yields Q used) {v : α} (hrun : r.run position words = .ok (v, count)) :
    Q v (used ++ words.take (count - position)) := by
  induction r generalizing used position words with
  | done v' =>
    obtain ⟨rfl, rfl⟩ := Prod.mk.inj (Except.ok.inj hrun)
    rw [Nat.sub_self, List.take_zero, List.append_nil]
    exact h
  | fail e => exact nomatch hrun
  | word next ih =>
    cases words with
    | nil => exact nomatch hrun
    | cons w rest =>
      rw [take_of_run hrun]
      exact ih position w (h position w) hrun

end Yields

namespace Upgrades

variable {Apart : α → List UInt16 → Prop} {r r' : WordReader α}

theorem refl (r : WordReader α) (used : List UInt16) : Upgrades Apart r r used := by
  induction r generalizing used with
  | done v => exact .done v used
  | fail e => exact .fail e _ used
  | word next ih => exact .word fun position w => ih position w _

theorem bind {Parted : β → List UInt16 → Prop} {f f' : α → WordReader β}
    (h : Upgrades Apart r r' used) (hf : ∀ v used', Upgrades Parted (f v) (f' v) used')
    (hparted : ∀ v used', Apart v used' → (f v).Yields Parted used') :
    Upgrades Parted (r >>= f) (r' >>= f') used := by
  induction h with
  | done v used => exact hf v used
  | fail e r used => exact .fail e _ used
  | word h ih => exact .word fun position w => ih position w
  | apart r' h => exact .apart _ (h.bind hparted)

theorem after {Parted : β → List UInt16 → Prop} {f f' : α → WordReader β} (r : WordReader α)
    (hf : ∀ v used', Upgrades Parted (f v) (f' v) used') :
    Upgrades Parted (r >>= f) (r >>= f') used :=
  bind (refl r used) hf fun _ _ => False.elim

theorem of_run (h : Upgrades Apart r r' used) {v : α} (hrun : r.run position words = .ok (v, count)) :
    r'.run position words = .ok (v, count) ∨
      Apart v (used ++ words.take (count - position)) := by
  induction h generalizing position words with
  | done v used => exact .inl hrun
  | fail e r used => exact nomatch hrun
  | word h ih =>
    cases words with
    | nil => exact nomatch hrun
    | cons w rest =>
      rw [take_of_run hrun]
      exact ih position w hrun
  | apart r' h => exact .inr (h.of_run hrun)

end Upgrades

end WordReader

namespace Form

/-- Extension words of the brief-indexed operands among the words of an instruction. That of the
source of a MOVE is right behind the opcode word, any other one is the last word. -/
def indexWords (form : Form) (words : List UInt16) : List UInt16 :=
  (if form.src.isBriefIndexed then
    (if form.op = .move then words[1]? else words.getLast?).toList else []) ++
  (if form.dst.isBriefIndexed then words.getLast?.toList else [])

/-- The last model reads the words of the instruction in another way: bits 8 to 10 of a brief
extension word are set, or the displacement byte of a branch is 255. -/
def reinterpreted (form : Form) (words : List UInt16) : Bool :=
  (form.indexWords words).any (fun ext => Word.field3 ext 8 != 0) ||
    ((form.op == .bcc || form.op == .bsr) && words.head?.any fun w => w &&& 0xFF == 0xFF)

variable {form : Form}

theorem reinterpreted_of_mem (hmem : ext ∈ form.indexWords words)
    (hbits : Word.field3 ext 8 ≠ 0) : form.reinterpreted words = true := by
  rw [reinterpreted, Bool.or_eq_true]
  exact .inl (List.any_eq_true.mpr ⟨ext, hmem, bne_iff_ne.mpr hbits⟩)

theorem mem_indexWords_of_endsWith {operand : Operand} (hends : form.EndsWith operand)
    (hbrief : operand.isBriefIndexed = true) (hlast : words.getLast? = some ext) :
    ext ∈ form.indexWords words := by
  rw [indexWords, List.mem_append]
  rcases hends with rfl | ⟨rfl, hop⟩
  · exact .inr (by simp [hbrief, hlast])
  · exact .inl (by simp [hbrief, hop, hlast])

theorem mem_indexWords_of_move (hop : form.op = .move) (hbrief : form.src.isBriefIndexed = true)
    (hsecond : words[1]? = some ext) : ext ∈ form.indexWords words := by
  rw [indexWords, List.mem_append]
  exact .inl (by simp [hbrief, hop, hsecond])

end Form

namespace Decode

open WordReader

theorem require_upgrades {ok ok' : Bool} (h : ok = true → ok' = true) (operand : Operand)
    (used : List UInt16) :
    Upgrades (fun _ _ => False) (require ok operand) (require ok' operand) used := by
  cases ok with
  | true =>
    rw [h rfl]
    exact .refl _ used
  | false =>
    have hfail : ∃ e, require false operand = .fail e := by
      unfold require
      rw [if_neg Bool.false_ne_true]
      split <;> exact ⟨_, rfl⟩
    obtain ⟨e, he⟩ := hfail
    rw [he]
    exact .fail e _ used

variable {model model' : Model}

/-- The operand is brief-indexed, by an extension word right behind `used` that the other model
reads in another way. -/
def Reindexed (model' : Model) (used : List UInt16) (operand : Operand)
    (used' : List UInt16) : Prop :=
  model'.is68020 = true ∧ operand.isBriefIndexed = true ∧
    ∃ ext, used' = used ++ [ext] ∧ Word.field3 ext 8 ≠ 0

/-- The other model reads the words of the instruction in another way. -/
def Reread (model' : Model) (form : Form) (used : List UInt16) : Prop :=
  model'.is68020 = true ∧ form.reinterpreted used = true

/-- An instruction of the earlier model is one of the other model, or is read in another way. -/
def Carried (model' : Model) (r r' : WordReader Form) (used : List UInt16) : Prop :=
  Upgrades (Reread model') r r' used

theorem Reindexed.reread {used' : List UInt16} {operand : Operand}
    (h : Reindexed model' used operand used') {form : Form} (hends : form.EndsWith operand) :
    Reread model' form used' := by
  obtain ⟨hmodel', hbrief, ext, rfl, hbits⟩ := h
  have hlast : (used ++ [ext]).getLast? = some ext := List.getLast?_concat ..
  exact ⟨hmodel', form.reinterpreted_of_mem (form.mem_indexWords_of_endsWith hends hbrief hlast) hbits⟩

section Later

variable (hmodel : model.is68020 = false)
include hmodel

/-- Without bits 8 to 10 an extension word has one meaning. -/
theorem extension_upgrades {α : Type} {Apart : α → List UInt16 → Prop} (brief : IndexReg → α)
    (full : FullIndex → α)
    (hapart : model'.is68020 = true → Word.field3 ext 8 ≠ 0 →
      Apart (brief (indexReg model ext)) used) :
    Upgrades Apart
      (if isFull model ext then do return full (← fullExtension model ext)
        else .done (brief (indexReg model ext)))
      (if isFull model' ext then do return full (← fullExtension model' ext)
        else .done (brief (indexReg model' ext))) used := by
  rw [isFull_eq_false hmodel, if_neg Bool.false_ne_true]
  by_cases hbits : Word.field3 ext 8 = 0
  · have hval : ext.toNat / 2 ^ 8 % 8 = 0 := by rw [← Word.val_field3, hbits]; rfl
    have hbrief : Word.bit ext 8 = false := by
      rw [Word.bit_eq, decide_eq_false_iff_not]
      omega
    have hscale : Word.field2 ext 9 = 0 := by
      apply Fin.ext
      rw [Word.val_field2, Fin.val_zero]
      omega
    have hindex : indexReg model' ext = indexReg model ext := by
      simp only [indexReg, hscale, ite_self]
    rw [isFull, hbrief, Bool.false_and, if_neg Bool.false_ne_true, hindex]
    exact .refl _ used
  · cases hmodel' : model'.is68020 with
    | true => exact .apart _ (hapart hmodel' hbits)
    | false =>
      have hindex : indexReg model' ext = indexReg model ext := by
        simp only [indexReg, hmodel, hmodel']
      rw [isFull_eq_false hmodel', if_neg Bool.false_ne_true, hindex]
      exact .refl _ used

theorem Addressing.upgrades {mode reg : Fin 8} {r r' : WordReader Operand}
    (h : Addressing model model' mode reg r r') (used : List UInt16) :
    Upgrades (Reindexed model' used) r r' used := by
  cases h with
  | fixed hn hlead h hplain => exact .refl _ used
  | index hfull h hbrief hscale =>
    refine .word fun position ext => extension_upgrades hmodel _ _ fun hmodel' hbits => ?_
    exact ⟨hmodel', hbrief .., ext, rfl, hbits⟩
  | refused => exact .refl _ used

theorem moveDestination_upgrades (size : Size) (used : List UInt16) :
    Upgrades (Reindexed model' used) (moveDestination model w size) (moveDestination model' w size)
      used := by
  unfold moveDestination
  split
  · exact .refl _ used
  · refine ((effectiveAddress_addressing model model' _ _ size).upgrades hmodel used).bind
      (fun _ _ => .refl _ _) fun dst used' happart => ?_
    unfold require
    split
    · exact happart
    · split <;> trivial

/-- The second word of a MOVE is its source's, whatever its destination reads. -/
theorem lineMove_carried : Carried model' (lineMove model w) (lineMove model' w) [w] := by
  unfold lineMove sizeOr
  split
  · rename_i size _
    refine ((operandOf_addressing model model' w size).upgrades hmodel [w]).bind
      (fun src used => ?_) fun src used happart => ?_
    · exact .after _ fun _ used => (moveDestination_upgrades hmodel size used).bind
        (fun _ _ => .refl _ _) fun dst used' happart => happart.reread (.inl rfl)
    · obtain ⟨hmodel', hbrief, ext, rfl, hbits⟩ := happart
      refine (Yields.second rfl _).bind fun _ used hused => (Yields.second hused _).bind
        fun dst used hused => ⟨hmodel', Form.reinterpreted_of_mem ?_ hbits⟩
      exact Form.mem_indexWords_of_move rfl hbrief hused
  · exact .refl _ [w]

theorem Encoding.carried {r r' : WordReader Form} (h : Encoding model model' w r r') :
    Carried model' r r' [w] := by
  cases h with
  | refused => exact .fail ..
  | fixed hn hlead hplain h => exact .refl _ [w]
  | @operand _ _ _ size _ _ _ hn hlead hkind hmore hends h =>
    refine .after _ fun v used => ?_
    refine ((operandOf_addressing model model' w size).upgrades hmodel used).bind
      (fun o used' => ?_) fun o used' happart => ?_
    · exact (require_upgrades (hmore o) o used').bind (fun _ _ => .refl _ _) fun _ _ => False.elim
    · unfold require
      split
      · exact happart.reread (hends v o).1
      · split <;> trivial
  | reread h hmodel' hop hbyte =>
    refine .apart _ ⟨hmodel', Bool.or_eq_true_iff.mpr (.inr ?_)⟩
    rcases hop with hop | hop <;> simp [hop, hbyte]
  | move => exact lineMove_carried hmodel

end Later

end Decode

namespace Instruction

variable {model model' : Model} {address : UInt32} {inst : Instruction}

theorem words_of_run {form : Form} (hrun : (Decode.form model w).run 1 rest = .ok (form, count)) :
    (w :: rest).take count = [w] ++ rest.take (count - 1) :=
  WordReader.take_of_run hrun [] w

theorem decode?_later (hmodel : model.is68020 = false)
    (hlater : model.is68010OrLater = true → model'.is68010OrLater = true)
    (h : decode? model address words = .ok inst) :
    decode? model' address words = .ok inst ∨
      Decode.Reread model' inst.toForm (words.take (inst.length / 2)) := by
  obtain ⟨form, count, hrun, rfl⟩ := decode?_eq_ok h
  cases words with
  | nil => exact nomatch hrun
  | cons w rest =>
    rw [show 2 * count / 2 = count by omega, words_of_run hrun]
    have hall : model.Later model' :=
      ⟨hlater, fun h => absurd (hmodel.symm.trans h) Bool.false_ne_true⟩
    refine (((Decode.form_encoding hall w).carried hmodel).of_run hrun).imp_left fun hrun' => ?_
    have hreader : (Decode.reader model').run 0 (w :: rest) = .ok (form, count) := hrun'
    exact decode?_of_run hreader address

theorem decode?_fits (h : decode? model address words = .ok inst) : inst.toForm.Fits model := by
  obtain ⟨w, rest, -, hfaithful, -⟩ := decode?_faithful h
  exact hfaithful.fits

end Instruction

open Instruction

/-- What a model decodes, the next one decodes to the same instruction; the last model does so
unless it reads the words in another way. What came later with a model is missing before it. -/
theorem models_only_add (address : UInt32) (words : List UInt16) (inst : Instruction) :
    (decode? .m68000 address words = .ok inst →
      decode? .m68010 address words = .ok inst ∧ inst.needs68010 = false ∧
        inst.needs68020 = false) ∧
    (decode? .m68010 address words = .ok inst →
      (inst.reinterpreted (words.take (inst.length / 2)) = false →
        decode? .m68020 address words = .ok inst) ∧ inst.needs68020 = false) := by
  refine ⟨fun h => ?_, fun h => ?_⟩
  · have hfits := decode?_fits h
    refine ⟨?_, Bool.eq_false_iff.mpr fun hneeds => ?_, Bool.eq_false_iff.mpr fun hneeds => ?_⟩
    · exact (decode?_later rfl (by nofun) h).resolve_right fun hreread => nomatch hreread.1
    · exact nomatch hfits.loopMode hneeds
    · exact nomatch hfits.wide hneeds
  · refine ⟨fun hsame => ?_, Bool.eq_false_iff.mpr fun hneeds => ?_⟩
    · exact (decode?_later rfl (fun _ => rfl) h).resolve_right fun hreread =>
        absurd (hsame.symm.trans hreread.2) Bool.false_ne_true
    · exact nomatch (decode?_fits h).wide hneeds

/-- Both operands of `MOVE.W 4(A0,D1.W),2(A1,D2.L)` are indexed, and neither extension word has one
of the bits. -/
theorem models_only_add_move :
    let words : List UInt16 := [0x33B0, 0x1004, 0x2802, 0x4E71]
    let inst := Instruction.decode .m68000 0x1000 words
    decode? .m68000 0x1000 words = .ok inst ∧ inst.length = 6 ∧
      inst.indexWords (words.take 3) = [0x1004, 0x2802] ∧
      inst.reinterpreted (words.take (inst.length / 2)) = false ∧
      decode? .m68010 0x1000 words = .ok inst ∧ decode? .m68020 0x1000 words = .ok inst := by
  intro words inst
  have hfirst : decode? .m68000 0x1000 words = .ok inst := rfl
  have hlength : inst.length = 6 := rfl
  have hclear : inst.reinterpreted (words.take (inst.length / 2)) = false := by
    rw [hlength]
    rfl
  have hsecond := ((models_only_add 0x1000 words inst).1 hfirst).1
  exact ⟨hfirst, hlength, rfl, hclear, hsecond, ((models_only_add 0x1000 words inst).2 hsecond).1 hclear⟩

/-- With bit 8 set the last model reads a full extension word and its displacement. -/
example : (decode .m68010 0 [0x3030, 0x0120, 0x0008]).length = 4 ∧
    (decode .m68020 0 [0x3030, 0x0120, 0x0008]).length = 6 := by
  decide

/-- The last model reads a long displacement behind the byte 255. -/
example : (decode .m68010 0 [0x60FF, 0, 8]).length = 2 ∧
    (decode .m68020 0 [0x60FF, 0, 8]).length = 6 := by
  decide

end Dynarec68k
