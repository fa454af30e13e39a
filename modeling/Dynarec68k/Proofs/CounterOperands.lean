import Dynarec68k.Proofs.DecodedForm

namespace Dynarec68k

variable {words : List UInt16} {count position : Nat} {ext w : UInt16}

namespace WordReader

variable {α β : Type}

theorem run_bind {r : WordReader α} {f : α → WordReader β} {v : β}
    (hrun : (r >>= f).run position words = .ok (v, count)) :
    ∃ u k, r.run position words = .ok (u, position + k) ∧
      (f u).run (position + k) (words.drop k) = .ok (v, count) := by
  induction r generalizing position words with
  | done u => exact ⟨u, 0, rfl, hrun⟩
  | fail e => cases hrun
  | word next ih =>
    cases words with
    | nil => cases hrun
    | cons w rest =>
      obtain ⟨u, k, hfirst, hsecond⟩ := ih position w hrun
      have hplus : position + 1 + k = position + (k + 1) := by omega
      rw [hplus] at hfirst hsecond
      exact ⟨u, k + 1, hfirst, hsecond⟩

theorem Fixed.run_count {Q : α → Prop} {n : Nat} {r : WordReader α} (h : Fixed Q n r) {v : α}
    (hrun : r.run position words = .ok (v, count)) : count = position + n := by
  induction h generalizing position words with
  | done h =>
    obtain ⟨-, rfl⟩ := Prod.mk.inj (Except.ok.inj hrun)
    rfl
  | word h ih =>
    cases words with
    | nil => cases hrun
    | cons w rest =>
      rw [ih position w hrun]
      omega

end WordReader

open WordReader

/-- The base displacement that stands behind a full extension word. -/
def FullIndex.encodedBase (ext : UInt16) (words : List UInt16) : Int32 :=
  match Word.field2 ext 4, words with
  | 2, w :: _ => (Word.signed16 w).toInt32
  | 3, high :: low :: _ => (Word.join high low).toInt32
  | _, _ => 0

/-- Counted from the first extension word of the instruction at `address`, `d` reaches what `s`
reaches from extension word `k`. -/
def Reaches (address : UInt32) (k : Nat) (s d : Int32) : Prop :=
  address + 2 + d.toUInt32 = address + 2 * k.toUInt32 + s.toUInt32

/-- An operand relative to the program counter has the displacement of its extension word, which is
number `k` of the instruction at `address` and the first of `words`. -/
def Operand.CountedFrom (address : UInt32) (k : Nat) (words : List UInt16) : Operand → Prop
  | .pcDisplaced d => ∃ w rest, words = w :: rest ∧ Reaches address k (Word.signed16 w).toInt32 d
  | .pcIndexed _ d => ∃ w rest, words = w :: rest ∧ Reaches address k (Word.signed8 w).toInt32 d
  | .pcFull index => ∃ w rest, words = w :: rest ∧ index.baseSuppressed = Word.bit w 7 ∧
      index.baseDisp.toUInt32 = (FullIndex.encodedBase w rest).toUInt32 +
        if index.baseSuppressed then 0 else 2 * (k - 1).toUInt32
  | _ => True

namespace Decode

variable {model : Model} {address : UInt32} {o : Operand} {form : Form}

theorem toUInt32_pcAdjust (position : Nat) :
    (pcAdjust position).toUInt32 = 2 * (position - 1).toUInt32 := by
  have hofNat : (pcAdjust position).toUInt32 = UInt32.ofNat (2 * (position - 1)) := rfl
  rw [hofNat, UInt32.ofNat_mul]
  rfl

theorem reaches_pcAdjust (address : UInt32) (hposition : 1 ≤ position) (s : Int32) :
    Reaches address position s (s + pcAdjust position) := by
  obtain ⟨k, rfl⟩ : ∃ k, position = k + 1 := ⟨position - 1, by omega⟩
  have hbytes : 2 * (k + 1).toUInt32 = 2 + 2 * k.toUInt32 := by
    apply UInt32.toNat_inj.mp
    simp
    omega
  rw [Reaches, Int32.toUInt32_add, hbytes, toUInt32_pcAdjust, Nat.add_sub_cancel]
  ac_rfl

theorem sizedDisplacement_run {base : Int32}
    (hrun : (sizedDisplacement (Word.field2 ext 4)).run position words = .ok (base, count)) :
    base = FullIndex.encodedBase ext words := by
  unfold FullIndex.encodedBase
  generalize Word.field2 ext 4 = field at hrun ⊢
  match field, words with
  | 0, words | 1, words => exact (Prod.mk.inj (Except.ok.inj hrun)).1.symm
  | 2, [] | 3, [] | 3, [_] => cases hrun
  | 2, w :: _ | 3, _ :: _ :: _ => exact (Prod.mk.inj (Except.ok.inj hrun)).1.symm

theorem fullExtension_run {index : FullIndex}
    (hrun : (fullExtension model ext).run position words = .ok (index, count)) :
    index.baseSuppressed = Word.bit ext 7 ∧ index.baseDisp = FullIndex.encodedBase ext words := by
  unfold fullExtension at hrun
  split at hrun
  · cases hrun
  · obtain ⟨base, k, hbase, hrest⟩ := run_bind hrun
    obtain ⟨outer, j, -, hdone⟩ := run_bind hrest
    obtain ⟨rfl, -⟩ := Prod.mk.inj (Except.ok.inj hdone)
    exact ⟨rfl, sizedDisplacement_run hbase⟩

theorem effectiveAddress_run (hposition : 1 ≤ position) {mode reg : Fin 8} {size : Size}
    (hrun : (effectiveAddress model mode reg size).run position words = .ok (o, count)) :
    o.CountedFrom address position words := by
  have hmode := ((effectiveAddress_addressing model model mode reg size).ensures.of_run hrun).1
  cases o with
  | pcDisplaced d =>
    cases hmode
    cases words with
    | nil => cases hrun
    | cons w rest =>
      obtain rfl := Operand.pcDisplaced.inj (Prod.mk.inj (Except.ok.inj hrun)).1
      exact ⟨w, rest, rfl, reaches_pcAdjust address hposition _⟩
  | pcIndexed index d =>
    cases hmode
    cases words with
    | nil => cases hrun
    | cons w rest =>
      change (ite (isFull model w = true) _ _ : WordReader Operand).run _ rest = _ at hrun
      split at hrun
      · obtain ⟨full, k, -, hdone⟩ := run_bind hrun
        cases (Prod.mk.inj (Except.ok.inj hdone)).1
      · obtain ⟨-, rfl⟩ := Operand.pcIndexed.inj (Prod.mk.inj (Except.ok.inj hrun)).1
        exact ⟨w, rest, rfl, reaches_pcAdjust address hposition _⟩
  | pcFull index =>
    cases hmode
    cases words with
    | nil => cases hrun
    | cons w rest =>
      change (ite (isFull model w = true) _ _ : WordReader Operand).run _ rest = _ at hrun
      split at hrun
      · obtain ⟨full, k, hfull, hdone⟩ := run_bind hrun
        obtain rfl := Operand.pcFull.inj (Prod.mk.inj (Except.ok.inj hdone)).1
        obtain ⟨hbase, hdisp⟩ := fullExtension_run hfull
        refine ⟨w, rest, rfl, ?_⟩
        unfold FullIndex.rebase
        split
        · rw [UInt32.add_zero, hdisp]
          exact ⟨hbase, rfl⟩
        · refine ⟨hbase, ?_⟩
          rw [← hdisp, ← toUInt32_pcAdjust]
          exact Int32.toUInt32_add ..
      · cases (Prod.mk.inj (Except.ok.inj hrun)).1
  | _ => trivial

/-- The destination of MOVE can be changed, so it is not relative to the program counter. -/
theorem moveDestination_plain (size : Size) :
    (moveDestination model w size).Ensures fun dst => dst.isPcRelative = false := by
  unfold moveDestination
  split
  · split <;> trivial
  · refine (Ensures.always _).bind fun dst _ => (require_ensures _ dst).bind fun _ hallowed => ?_
    cases dst <;> first | rfl | cases hallowed

theorem lineMove_run (hrun : (lineMove model w).run 1 words = .ok (form, count))
    (ho : o ∈ form.relatives) :
    o.CountedFrom address (1 + form.leadWords) (words.drop form.leadWords) := by
  unfold lineMove at hrun
  cases hsize : Size.ofMoveBits (Word.field2 w 12) with
  | none =>
    rw [hsize] at hrun
    cases hrun
  | some size =>
    rw [hsize] at hrun
    obtain ⟨src, k, hsrc, hrest⟩ := run_bind (r := operandOf model w size) hrun
    obtain ⟨-, j, -, hrest⟩ := run_bind hrest
    obtain ⟨dst, i, hdst, hdone⟩ := run_bind hrest
    obtain ⟨rfl, -⟩ := Prod.mk.inj (Except.ok.inj hdone)
    have hplain := (moveDestination_plain size).of_run hdst
    have hsame : o = src := by
      rcases List.mem_cons.mp (List.mem_filter.mp ho).1 with hsrc | hdst
      · exact hsrc
      · have hrelative := (List.mem_filter.mp ho).2
        rw [List.mem_singleton.mp hdst] at hrelative
        cases hrelative.symm.trans hplain
    rw [hsame]
    exact effectiveAddress_run (Nat.le_refl 1) hsrc

theorem Encoding.run {model' : Model} {r r' : WordReader Form} (h : Encoding model model' w r r')
    (hrun : r.run 1 words = .ok (form, count)) (ho : o ∈ form.relatives) :
    o.CountedFrom address (1 + form.leadWords) (words.drop form.leadWords) := by
  cases h with
  | refused => cases hrun
  | fixed hn hlead hplain h =>
    obtain ⟨v, k, -, hdone⟩ := run_bind hrun
    obtain ⟨rfl, -⟩ := Prod.mk.inj (Except.ok.inj hdone)
    rw [hplain v] at ho
    cases ho
  | operand hn hlead hkind hmore hends h =>
    obtain ⟨v, k, hlead', hafter⟩ := run_bind hrun
    obtain ⟨o', j, hoperand, hafter⟩ := run_bind hafter
    obtain ⟨-, i, -, hdone⟩ := run_bind hafter
    obtain ⟨rfl, -⟩ := Prod.mk.inj (Except.ok.inj hdone)
    obtain rfl : k = _ := Nat.add_left_cancel (hlead.run_count hlead')
    rw [(hends v o').2.rest] at ho
    obtain rfl : o = o' := List.mem_singleton.mp (List.mem_filter.mp ho).1
    rw [(hends v o).2.words]
    exact effectiveAddress_run (Nat.le_add_right 1 _) hoperand
  | reread h hmodel hop hbyte hplain =>
    obtain ⟨rfl, -⟩ := Prod.mk.inj (Except.ok.inj hrun)
    rw [hplain] at ho
    cases ho
  | move => exact lineMove_run hrun ho

end Decode

/-- Displacements from the program counter are normalised. In an instruction decoded at `address`
an operand counts from the first extension word, the one behind the opcode word; the words that held
it count from where they stand, behind all words of the immediate or of the register mask. -/
theorem pc_operands_count_from_first_word {model : Model} {address : UInt32} {words : List UInt16}
    {inst : Instruction} (h : Instruction.decode? model address words = .ok inst) {o : Operand}
    (ho : o = inst.src ∨ o = inst.dst) :
    o.CountedFrom address (1 + inst.leadWords) (words.drop (1 + inst.leadWords)) := by
  obtain ⟨w, rest, rfl, -, hrun⟩ := Instruction.decode?_faithful h
  cases hrelative : o.isPcRelative with
  | false => cases o <;> trivial
  | true =>
    rw [Nat.add_comm 1, List.drop_succ_cons, Nat.add_comm]
    refine (Decode.form_encoding (.refl model) w).run hrun (List.mem_filter.mpr ⟨?_, hrelative⟩)
    rcases ho with rfl | rfl
    · exact List.mem_cons_self
    · exact List.mem_cons_of_mem _ (List.mem_singleton_self _)

/-- CMPI.L with a full extension word on the program counter: two words of the immediate stand
before the extension word, which is number three. -/
theorem pc_operands_count_from_first_word_compare :
    ∃ inst, Instruction.decode? .m68020 0x1000 [0x0CBB, 0x1234, 0x5678, 0x0120, 0xFFF0] = .ok inst ∧
      inst.dst = .pcFull ⟨false, some ⟨0, false, 0⟩, -12, .none⟩ ∧
      inst.dst.CountedFrom 0x1000 3 [0x0120, 0xFFF0] := by
  have hdecoded : Instruction.decode? .m68020 0x1000 [0x0CBB, 0x1234, 0x5678, 0x0120, 0xFFF0] =
      .ok ⟨⟨.cmp, .immediate, .size .long, .immediate 0x12345678,
        .pcFull ⟨false, some ⟨0, false, 0⟩, -12, .none⟩⟩, 0x1000, 10⟩ := by
    rfl
  exact ⟨_, hdecoded, rfl, pc_operands_count_from_first_word hdecoded (.inr rfl)⟩

end Dynarec68k
