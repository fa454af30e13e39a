import Dynarec68k.Proofs.Encodings

namespace Dynarec68k

open WordReader Word

variable {field k : Fin 8} {base line n : Nat} {op : Op} {dst src : Operand} {size : Size}

namespace Decode

section Fields

variable (w : UInt16)

theorem upperReg_val : (upperReg w).val = w.toNat / 512 % 8 :=
  val_field3 w 9

theorem mode_val : (mode w).val = w.toNat / 8 % 8 :=
  val_field3 w 3

theorem lowerReg_val : (lowerReg w).val = w.toNat % 8 := by
  rw [lowerReg, val_field3, Nat.pow_zero, Nat.div_one]

variable {w}

theorem opmode_of_eq (h : field3 w 6 = k) : w.toNat / 64 % 8 = k.val := by
  rw [← h]
  exact (val_field3 w 6).symm

theorem line_of_eq {k : Fin 16} (h : field4 w 12 = k) : w.toNat / 4096 = k.val := by
  have hlt := w.toNat_lt
  have hval := congrArg Fin.val h
  rw [val_field4] at hval
  omega

theorem upper_of_eq (h : upperReg w = k) : w.toNat / 512 % 8 = k.val := by
  rw [← h, upperReg_val]

theorem mode_of_eq (h : mode w = k) : w.toNat / 8 % 8 = k.val := by
  rw [← h, mode_val]

theorem size_of_eq (h : Size.ofBits (field2 w 6) = some size) :
    size.bits.val = w.toNat / 64 % 4 := by
  have hbits : ∀ field size, Size.ofBits field = some size → size.bits.val = field.val := by
    decide
  rw [hbits _ _ h]
  exact val_field2 w 6

theorem size_of_none (h : Size.ofBits (field2 w 6) = none) : w.toNat / 64 % 4 = 3 := by
  have hbits : ∀ field, Size.ofBits field = none → field.val = 3 := by
    decide
  rw [← hbits _ h]
  exact (val_field2 w 6).symm

theorem condition_val : (Condition.ofBits (field4 w 8)).bits.val = w.toNat / 256 % 16 := by
  have hbits : ∀ field : Fin 16, (Condition.ofBits field).bits = field := by
    decide
  rw [hbits]
  exact val_field4 w 8

theorem toNat_bit (n : Nat) : (bit w n).toNat = w.toNat / 2 ^ n % 2 := by
  rw [bit_eq]
  rcases Nat.mod_two_eq_zero_or_one (w.toNat / 2 ^ n) with h | h <;> simp [h]

theorem bit_of_true (h : bit w n = true) : w.toNat / 2 ^ n % 2 = 1 := by
  rw [← toNat_bit, h]
  rfl

theorem bit_of_false (h : bit w n = false) : w.toNat / 2 ^ n % 2 = 0 := by
  rw [← toNat_bit, h]
  rfl

end Fields

section Lines

variable {model model' : Model} {w : UInt16} {o : Operand} {v : Variant} {kind : Fin 4}
  {r : WordReader Form} {value : UInt32}

theorem under_word (ho : o.ReadFrom model w) (hbase : w.toNat / 64 * 64 = base) :
    base + o.field = w.toNat := by
  rw [ho.field]
  omega

theorem lower_word (base : Nat) (hbase : w.toNat / 8 * 8 = base) :
    base + (lowerReg w).val = w.toNat := by
  rw [lowerReg_val]
  omega

theorem product_word (base : Nat) (ho : o.ReadFrom model w)
    (hbase : w.toNat / 4096 * 4096 + w.toNat / 64 % 8 * 64 = base) :
    base + 512 * (upperReg w).val + o.field = w.toNat := by
  rw [ho.field, upperReg_val]
  omega

/-- What ADD, SUB, AND and OR have in common. -/
structure Binary (op : Op) (line : Nat) : Prop where
  early : op.isEarly = true
  notMove : decide (op = .move) = false
  noWord : op.hasOwnWord = false
  shaped : ∀ size src dst, (Form.sized op size src dst).shaped = (src.isValue && dst.isPlace)
  apt : ∀ size src dst, (Form.sized op size src dst).apt = true
  word : ∀ size src dst, (Form.sized op size src dst).opcode =
    (Form.sized op size src dst).registerWord line

theorem Binary.or : Binary .or 0x8000 :=
  ⟨rfl, rfl, rfl, fun _ _ _ => rfl, fun _ _ _ => rfl, fun _ _ _ => rfl⟩

theorem Binary.sub : Binary .sub 0x9000 :=
  ⟨rfl, rfl, rfl, fun _ _ _ => rfl, fun _ _ _ => rfl, fun _ _ _ => rfl⟩

theorem Binary.and : Binary .and 0xC000 :=
  ⟨rfl, rfl, rfl, fun _ _ _ => rfl, fun _ _ _ => rfl, fun _ _ _ => rfl⟩

theorem Binary.add : Binary .add 0xD000 :=
  ⟨rfl, rfl, rfl, fun _ _ _ => rfl, fun _ _ _ => rfl, fun _ _ _ => rfl⟩

theorem Binary.faithful (hop : Binary op line) (hsrc : src.Fits model) (hdst : dst.Fits model)
    (hvalue : src.isValue = true) (hplace : dst.isPlace = true)
    (hword : (Form.sized op size src dst).registerWord line = w.toNat) :
    (Form.sized op size src dst).Faithful model w := by
  refine .early hop.early (by decide) hsrc hdst ?_ (hop.apt ..) ((hop.word ..).trans hword)
  exact (hop.shaped size src dst).trans (Bool.and_eq_true_iff.mpr ⟨hvalue, hplace⟩)

theorem leadWords_sized (hop : op.hasOwnWord = false) (size : Size) (src dst : Operand) :
    (Form.sized op size src dst).leadWords = 0 :=
  congrArg Bool.toNat hop

theorem registerForms_encoding (hop : Binary op line) (hline : w.toNat / 4096 * 4096 = line) :
    Encodes model model' w (registerForms · w op) := by
  refine .sized fun size hsize => ?_
  have hbits := size_of_eq hsize
  cases hbit : bit w 8 with
  | true =>
    have hhigh := bit_of_true hbit
    refine .checked_dst (fun _ _ h => h.memoryAlterable)
      (fun _ => ⟨rfl, leadWords_sized hop.noWord .., rfl⟩) fun o ho hallowed => ?_
    have hmemory := Operand.isMemory_of_isMemoryAlterable hallowed
    obtain ⟨hdata, haddr⟩ := Operand.isRegister_of_isMemory hmemory
    refine hop.faithful (.plain rfl) ho.fits rfl (Operand.isPlace_of_isMemory hmemory) ?_
    simp only [Form.registerWord, Form.sized, haddr, hdata, Bool.false_eq_true, if_false]
    change line + 512 * (upperReg w).val + (256 + 64 * size.bits.val + o.field) = _
    rw [ho.field, hbits, upperReg_val]
    omega
  | false =>
    have hlow := bit_of_false hbit
    refine .checked_src (fun _ _ h => by rw [h.data, h.addressRegister])
      (fun _ => ⟨rfl, hop.notMove, leadWords_sized hop.noWord .., rfl⟩) fun o ho _ =>
        hop.faithful ho.fits (.plain rfl) ho.value rfl ?_
    change line + 512 * (upperReg w).val + (64 * size.bits.val + o.field) = _
    rw [ho.field, hbits, upperReg_val]
    omega

theorem wordProduct_encoding
    (hop : op = .divu ∧ base = 0x80C0 ∨ op = .divs ∧ base = 0x81C0 ∨ op = .mulu ∧ base = 0xC0C0 ∨
      op = .muls ∧ base = 0xC1C0) (hbase : w.toNat / 4096 * 4096 + w.toNat / 64 % 8 * 64 = base) :
    Encodes model model' w (wordProduct · w op) := by
  rcases hop with ⟨rfl, rfl⟩ | ⟨rfl, rfl⟩ | ⟨rfl, rfl⟩ | ⟨rfl, rfl⟩ <;>
    exact .checked_src (fun _ _ h => h.data) (fun _ => ⟨rfl, rfl, rfl, rfl⟩) fun o ho _ =>
      .early rfl (by decide) ho.fits (.plain rfl) ho.value rfl (product_word _ ho hbase)

theorem addressForm_encoding (line : Nat) (hearly : op.isEarly = true)
    (hmove : decide (op = .move) = false) (hword : op.hasOwnWord = false)
    (hline : w.toNat / 4096 * 4096 = line)
    (hsize : w.toNat / 64 % 8 = 3 + 4 * (Extra.size size).longBit)
    (h : ∀ src dst, src.isValue = true → (Form.sized op size src (.addr dst)).shaped = true ∧
      (Form.sized op size src (.addr dst)).apt = true ∧
      (Form.sized op size src (.addr dst)).opcode =
        line + 512 * dst.val + (192 + 256 * (Extra.size size).longBit + src.field)) :
    Encodes model model' w (addressForm · w op size) := by
  refine .checked_src (c := fun _ => true) (fun _ _ _ => rfl)
    (fun _ => ⟨rfl, hmove, leadWords_sized hword .., rfl⟩) fun o ho _ => ?_
  obtain ⟨hshaped, hapt, hword⟩ := h o (upperReg w) ho.value
  refine .early hearly (by decide) ho.fits (.plain rfl) hshaped hapt (hword.trans ?_)
  rw [ho.field, upperReg_val]
  omega

theorem chainedPair_word (hmode : w.toNat / 8 % 8 < 2) :
    (chainedPair w).1.pairBit + (chainedPair w).1.register = w.toNat % 64 ∧
      (chainedPair w).2.register = w.toNat / 512 % 8 := by
  unfold chainedPair
  cases hbit : bit w 3 with
  | true =>
    have hodd := bit_of_true hbit
    refine ⟨?_, upperReg_val w⟩
    change 8 + (lowerReg w).val = _
    rw [lowerReg_val]
    omega
  | false =>
    have heven := bit_of_false hbit
    refine ⟨?_, upperReg_val w⟩
    change 0 + (lowerReg w).val = _
    rw [lowerReg_val]
    omega

theorem chainedPair_kind :
    (chainedPair w).1.isValue = true ∧ (chainedPair w).2.isPlace = true ∧
      (chainedPair w).1.isExtended = false ∧ (chainedPair w).2.isExtended = false := by
  unfold chainedPair
  split <;> exact ⟨rfl, rfl, rfl, rfl⟩

theorem chainedPair_relatives {extra : Extra} :
    (Form.mk op v extra (chainedPair w).1 (chainedPair w).2).relatives = [] := by
  unfold chainedPair
  split <;> rfl

theorem chained_word {form : Form} (hmode : w.toNat / 8 % 8 < 2)
    (hbase : w.toNat / 4096 * 4096 + w.toNat / 64 % 8 * 64 = base)
    (hop : form.opcode = base + 512 * (chainedPair w).2.register +
      ((chainedPair w).1.pairBit + (chainedPair w).1.register)) : form.opcode = w.toNat := by
  obtain ⟨hlow, hhigh⟩ := chainedPair_word hmode
  rw [hop, hlow, hhigh]
  omega

theorem chained_encoding (base : Nat) (hearly : op.isEarly = true) (hmode : w.toNat / 8 % 8 < 2)
    (hbase : w.toNat / 4096 * 4096 + w.toNat / 64 % 8 * 64 = base)
    (h : ∀ src dst, (Form.sized op size src dst).shaped = (src.isValue && dst.isPlace) ∧
      (Form.sized op size src dst).apt = true ∧ (Form.sized op size src dst).opcode =
        base + 512 * dst.register + (src.pairBit + src.register)) :
    Encoding model model' w (.done (chained w op size)) (.done (chained w op size)) := by
  obtain ⟨hvalue, hplace, hsrc, hdst⟩ := chainedPair_kind (w := w)
  obtain ⟨hshaped, hapt, hword⟩ := h (chainedPair w).1 (chainedPair w).2
  refine .done chainedPair_relatives (.early hearly (by decide) (.plain hsrc) (.plain hdst) ?_ hapt
    (chained_word hmode hbase hword))
  exact hshaped.trans (Bool.and_eq_true_iff.mpr ⟨hvalue, hplace⟩)

theorem mode_of_decide (h : decide ((mode w).val < 2) = true) : w.toNat / 8 % 8 < 2 := by
  rw [← mode_val]
  exact of_decide_eq_true h

theorem packing_encoding (hlater : model.Later model') (hmode : w.toNat / 8 % 8 < 2)
    (hbase : w.toNat / 4096 * 4096 + w.toNat / 64 % 8 * 64 = base)
    (hop : op = .pack ∧ base = 0x8140 ∨ op = .unpk ∧ base = 0x8180) :
    Encodes model model' w (packing · w op) := by
  refine .gated_last hlater Model.wideOps_eq fun hmodel => ?_
  rcases hop with ⟨rfl, rfl⟩ | ⟨rfl, rfl⟩ <;>
    exact .fixed (by decide) .next (fun _ => chainedPair_relatives) fun _ =>
      .last hmodel rfl rfl (chained_word hmode hbase rfl)

theorem line8_encoding (hlater : model.Later model') (hline : w.toNat / 4096 = 8) :
    Encodes model model' w (line8 · w) := by
  unfold line8
  split
  · have := opmode_of_eq ‹_›
    exact wordProduct_encoding (.inl ⟨rfl, rfl⟩) (by omega)
  · have := opmode_of_eq ‹_›
    exact wordProduct_encoding (.inr (.inl ⟨rfl, rfl⟩)) (by omega)
  · rename_i hmode hlow
    have := opmode_of_eq hmode
    exact chained_encoding 0x8100 rfl (mode_of_decide hlow) (by omega) fun _ _ => ⟨rfl, rfl, rfl⟩
  · rename_i hmode hlow
    have := opmode_of_eq hmode
    exact packing_encoding hlater (mode_of_decide hlow) (by omega) (.inl ⟨rfl, rfl⟩)
  · rename_i hmode hlow
    have := opmode_of_eq hmode
    exact packing_encoding hlater (mode_of_decide hlow) (by omega) (.inr ⟨rfl, rfl⟩)
  · exact registerForms_encoding .or (by omega)

theorem lineSum_encoding {extended : Op} (hline : w.toNat / 4096 * 4096 = line)
    (hop : Binary op line) (hearly : extended.isEarly = true)
    (h : ∀ size src dst, (Form.sized extended size src dst).shaped = (src.isValue && dst.isPlace) ∧
      (Form.sized extended size src dst).apt = true ∧ (Form.sized extended size src dst).opcode =
        line + 256 + 64 * size.bits.val + 512 * dst.register + (src.pairBit + src.register)) :
    Encodes model model' w (lineSum · w op extended) := by
  have haddress (size : Size) (hsize : w.toNat / 64 % 8 = 3 + 4 * (Extra.size size).longBit) :
      Encodes model model' w (addressForm · w op size) := by
    refine addressForm_encoding line hop.early hop.notMove hop.noWord hline hsize fun src dst hvalue => ?_
    rw [hop.shaped, hvalue, hop.word]
    exact ⟨rfl, hop.apt .., rfl⟩
  have hchained (size : Size) (hmode : w.toNat / 64 % 8 = 4 + size.bits.val)
      (hlow : decide ((mode w).val < 2) = true) :
      Encoding model model' w (.done (chained w extended size)) (.done (chained w extended size)) := by
    refine chained_encoding (line + 256 + 64 * size.bits.val) hearly (mode_of_decide hlow) ?_ (h size)
    rw [hline, hmode]
    omega
  unfold lineSum
  split
  · exact haddress .word (opmode_of_eq ‹_›)
  · exact haddress .long (opmode_of_eq ‹_›)
  · exact hchained .byte (opmode_of_eq ‹_›) ‹_›
  · exact hchained .word (opmode_of_eq ‹_›) ‹_›
  · exact hchained .long (opmode_of_eq ‹_›) ‹_›
  · exact registerForms_encoding hop hline

theorem compareForm_encoding (hline : w.toNat / 4096 = 11)
    (hsize : w.toNat / 64 % 8 = size.bits.val) :
    Encodes model model' w (compareForm · w size) := by
  refine .checked_src (fun _ _ h => by rw [h.addressRegister]) (fun _ => ⟨rfl, rfl, rfl, rfl⟩)
    fun o ho _ => .early rfl (by decide) ho.fits (.plain rfl) ?_ rfl ?_
  · exact Bool.and_eq_true_iff.mpr ⟨ho.value, rfl⟩
  · change 0xB000 + 512 * (upperReg w).val + (64 * size.bits.val + o.field) = _
    rw [ho.field, upperReg_val]
    omega

theorem memoryCompareForm_encoding (hline : w.toNat / 4096 = 11)
    (hsize : w.toNat / 64 % 8 = 4 + size.bits.val) :
    Encodes model model' w (memoryCompareForm · w size) := by
  unfold memoryCompareForm
  split
  · have hone := mode_of_eq ‹_›
    refine .done rfl (.early rfl (by decide) (.plain rfl) (.plain rfl) rfl rfl ?_)
    change 0xB108 + 512 * (upperReg w).val + (64 * size.bits.val + (lowerReg w).val) = w.toNat
    rw [upperReg_val, lowerReg_val]
    omega
  · refine .checked_dst (fun _ _ h => h.dataAlterable) (fun _ => ⟨rfl, rfl, rfl⟩) fun o ho hallowed =>
      .early rfl (by decide) (.plain rfl) ho.fits (Operand.isPlace_of_isDataAlterable hallowed) rfl ?_
    change 0xB100 + 512 * (upperReg w).val + (64 * size.bits.val + o.field) = w.toNat
    rw [upperReg_val, ho.field]
    omega

theorem lineB_encoding (hline : w.toNat / 4096 = 11) :
    Encodes model model' w (lineB · w) := by
  have haddress (size : Size) (hsize : w.toNat / 64 % 8 = 3 + 4 * (Extra.size size).longBit) :
      Encodes model model' w (addressForm · w .cmp size) :=
    addressForm_encoding 0xB000 rfl rfl rfl (by omega) hsize fun src dst hvalue =>
      ⟨Bool.and_eq_true_iff.mpr ⟨hvalue, rfl⟩, rfl, rfl⟩
  unfold lineB
  split
  case h_1 | h_2 | h_3 => exact compareForm_encoding hline (opmode_of_eq ‹_›)
  case h_4 => exact haddress .word (opmode_of_eq ‹_›)
  case h_8 => exact haddress .long (opmode_of_eq ‹_›)
  all_goals exact memoryCompareForm_encoding hline (opmode_of_eq ‹_›)

theorem lineC_encoding (hline : w.toNat / 4096 = 12) :
    Encodes model model' w (lineC · w) := by
  have hexchange {src dst : Operand} (base : Nat)
      (hbase : w.toNat / 4096 * 4096 + w.toNat / 8 % 64 * 8 = base)
      (hsrc : src.isExtended = false) (hdst : dst.isExtended = false)
      (hplain : (Form.sized .exg .long src dst).relatives = [])
      (hop : (Form.sized .exg .long src dst).opcode =
        base + 512 * (upperReg w).val + (lowerReg w).val) :
      Encoding model model' w (.done (.sized .exg .long src dst))
        (.done (.sized .exg .long src dst)) := by
    refine .done hplain (.early rfl (by decide) (.plain hsrc) (.plain hdst) rfl rfl (hop.trans ?_))
    rw [upperReg_val, lowerReg_val]
    omega
  unfold lineC
  split
  · have := opmode_of_eq ‹_›
    exact wordProduct_encoding (.inr (.inr (.inl ⟨rfl, rfl⟩))) (by omega)
  · have := opmode_of_eq ‹_›
    exact wordProduct_encoding (.inr (.inr (.inr ⟨rfl, rfl⟩))) (by omega)
  case h_3 | h_4 =>
    rename_i hmode hlow
    have := opmode_of_eq hmode
    have := mode_of_eq hlow
    exact chained_encoding 0xC100 rfl (by omega) (by omega) fun _ _ => ⟨rfl, rfl, rfl⟩
  · rename_i hmode hlow
    have := opmode_of_eq hmode
    have := mode_of_eq hlow
    exact hexchange 0xC140 (by omega) rfl rfl rfl rfl
  · rename_i hmode hlow
    have := opmode_of_eq hmode
    have := mode_of_eq hlow
    exact hexchange 0xC148 (by omega) rfl rfl rfl rfl
  · rename_i hmode hlow
    have := opmode_of_eq hmode
    have := mode_of_eq hlow
    exact hexchange 0xC188 (by omega) rfl rfl rfl rfl
  · exact registerForms_encoding .and (by omega)

theorem quickCount_mod (field : Fin 8) : (quickCount field).toNat % 8 = field.val := by
  revert field
  decide

theorem quickArithmetic_encoding (hline : w.toNat / 4096 = 5)
    (hsize : size.bits.val = w.toNat / 64 % 4) :
    Encodes model model' w (quickArithmetic · w size) := by
  have hcount := quickCount_mod (upperReg w)
  rw [upperReg_val] at hcount
  unfold quickArithmetic
  refine .checked_dst (fun _ _ h => by rw [h.alterable, h.addressRegister])
    (fun _ => ⟨rfl, by cases bit w 8 <;> rfl, rfl⟩) fun o ho hallowed => ?_
  have hplace := Operand.isPlace_of_isAlterable (Bool.and_eq_true_iff.mp hallowed).1
  cases hbit : bit w 8 with
  | true =>
    have hhigh := bit_of_true hbit
    refine .early rfl (by decide) (.plain rfl) ho.fits hplace rfl ?_
    change 0x5100 + 512 * ((quickCount (upperReg w)).toNat % 8) + (64 * size.bits.val + o.field) = _
    rw [hcount, hsize, ho.field]
    omega
  | false =>
    have hlow := bit_of_false hbit
    refine .early rfl (by decide) (.plain rfl) ho.fits hplace rfl ?_
    change 0x5000 + 512 * ((quickCount (upperReg w)).toNat % 8) + (64 * size.bits.val + o.field) = _
    rw [hcount, hsize, ho.field]
    omega

theorem conditionalTrap_encoding (hlater : model.Later model') (hline : w.toNat / 4096 = 5) (hsize : w.toNat / 64 % 4 = 3)
    (hmode : mode w = 7) (hreg : 2 ≤ (lowerReg w).val ∧ (lowerReg w).val ≤ 4) :
    Encodes model model' w (conditionalTrap · w (Condition.ofBits (field4 w 8))) := by
  have hseven := mode_of_eq hmode
  have hfaithful (k : Nat) (hk : (lowerReg w).val = k) {form : Form} (hshaped : form.shaped = true)
      (hapt : form.apt = true) (hword : form.opcode =
        0x50F8 + 256 * (Condition.ofBits (field4 w 8)).bits.val + k)
      (hmodel : model.is68020 = true) : form.Faithful model w := by
    refine .last hmodel hshaped hapt (hword.trans ?_)
    rw [lowerReg_val] at hk
    rw [condition_val]
    omega
  refine .gated_last hlater Model.longBranches_eq fun hmodel => ?_
  split
  · exact .fixed (by decide) .next (fun _ => rfl) fun _ => hfaithful 2 (congrArg Fin.val ‹_›) rfl rfl rfl hmodel
  · exact .fixed (by decide) .nextLong (fun _ => rfl) fun _ =>
      hfaithful 3 (congrArg Fin.val ‹_›) rfl rfl rfl hmodel
  · rename_i hword hlong
    refine .done rfl (hfaithful 4 ?_ rfl rfl rfl hmodel)
    have hne2 : (lowerReg w).val ≠ 2 := fun heq => hword (Fin.ext heq)
    have hne3 : (lowerReg w).val ≠ 3 := fun heq => hlong (Fin.ext heq)
    omega

theorem conditionForms_encoding (hlater : model.Later model') (hline : w.toNat / 4096 = 5) (hsize : w.toNat / 64 % 4 = 3) :
    Encodes model model' w (conditionForms · w) := by
  unfold conditionForms
  dsimp only
  split
  · have := mode_of_eq ‹_›
    refine .fixed (by decide) .next (fun _ => rfl) fun _ => .early rfl (by decide) (.plain rfl) (.plain rfl) rfl rfl ?_
    change 0x50C8 + 256 * (Condition.ofBits (field4 w 8)).bits.val + (lowerReg w).val = _
    rw [condition_val, lowerReg_val]
    omega
  · split
    · rename_i htrap
      exact conditionalTrap_encoding hlater hline hsize htrap.1 htrap.2
    · refine .checked_dst (fun _ _ h => h.dataAlterable) (fun _ => ⟨rfl, rfl, rfl⟩) fun o ho hallowed =>
        .early rfl (by decide) (.plain rfl) ho.fits (Operand.isPlace_of_isDataAlterable hallowed) rfl ?_
      change 0x50C0 + 256 * (Condition.ofBits (field4 w 8)).bits.val + o.field = _
      rw [condition_val, ho.field]
      omega

theorem line5_encoding (hlater : model.Later model') (hline : w.toNat / 4096 = 5) :
    Encodes model model' w (line5 · w) := by
  unfold line5
  split
  · exact quickArithmetic_encoding hline (size_of_eq ‹_›)
  · exact conditionForms_encoding hlater hline (size_of_none ‹_›)

/-- A branch or a call, by its condition. -/
def branchForm (w : UInt16) (v : Variant × Int32) : Form :=
  let condition := Condition.ofBits (field4 w 8)
  (if condition = .never then Form.unsized .bsr (.displacement v.2) .none
    else Form.conditional .bcc condition (.displacement v.2) .none).withVariant v.1

theorem branchForm_relatives (w : UInt16) (v : Variant × Int32) :
    (branchForm w v).relatives = [] := by
  unfold branchForm
  dsimp only
  split <;> rfl

theorem branchForm_faithful (hline : w.toNat / 4096 = 6) {v : Variant × Int32}
    (hlong : v.1 = .long → model.is68020 = true)
    (hbyte : ∀ op extra, (Form.mk op v.1 extra (.displacement v.2) .none).displacementByte =
      w.toNat % 256) :
    (branchForm w v).Faithful model w ∧ ((branchForm w v).op = .bcc ∨ (branchForm w v).op = .bsr) := by
  have hcondition := condition_val (w := w)
  have hfaithful {op : Op} {extra : Extra} (hop : op = .bcc ∨ op = .bsr)
      (hword : (Form.mk op v.1 extra (.displacement v.2) .none).opcode = w.toNat) :
      (Form.mk op v.1 extra (.displacement v.2) .none).Faithful model w := by
    by_cases hvariant : v.1 = .long
    · rcases hop with rfl | rfl <;> exact .last (hlong hvariant) rfl rfl hword
    · rcases hop with rfl | rfl <;>
        exact .early rfl hvariant (.plain rfl) (.plain rfl) rfl rfl hword
  unfold branchForm
  dsimp only
  split
  · rename_i hnever
    rw [hnever] at hcondition
    have hone : 1 = w.toNat / 256 % 16 := hcondition
    refine ⟨hfaithful (.inr rfl) ?_, .inr rfl⟩
    change 0x6100 + (Form.mk .bsr v.1 .none (.displacement v.2) .none).displacementByte = _
    rw [hbyte]
    omega
  · refine ⟨hfaithful (.inl rfl) ?_, .inl rfl⟩
    change 0x6000 + 256 * (Condition.ofBits (field4 w 8)).bits.val +
      (Form.mk .bcc v.1 (.cond _) (.displacement v.2) .none).displacementByte = _
    rw [hbyte, hcondition]
    omega

theorem line6_encoding (hlater : model.Later model') (hline : w.toNat / 4096 = 6) :
    Encodes model model' w (line6 · w) := by
  dsimp only [Encodes]
  have hform (model : Model) : line6 model w =
      branchDisplacement model w >>= fun v => .done (branchForm w v) := rfl
  have hbyte : w.toNat % 256 = (w &&& 0xFF).toNat := (toNat_and_FF w).symm
  rw [hform, hform]
  unfold branchDisplacement
  by_cases hzero : w &&& 0xFF = 0
  · simp only [hzero, if_true]
    refine .fixed (l := next) (f := fun d => branchForm w (.word, (signed16 d).toInt32))
      (by decide) .next (fun _ => branchForm_relatives ..) fun _ =>
        (branchForm_faithful hline (fun h => by cases h) fun _ _ => ?_).1
    rw [hbyte, hzero]
    rfl
  · have hshort : (branchForm w (.byte, (signed8 w).toInt32)).Faithful model w ∧
        ((branchForm w (.byte, (signed8 w).toInt32)).op = .bcc ∨
          (branchForm w (.byte, (signed8 w).toInt32)).op = .bsr) := by
      refine branchForm_faithful hline (fun h => by cases h) fun _ _ => ?_
      change (signed8 w).toInt32.toUInt32.toNat % 256 = _
      rw [signed8, extended_mod, UInt16.toNat_toUInt8]
    rw [if_neg hzero, if_neg hzero, model.longBranches_eq, model'.longBranches_eq]
    by_cases hlast : w &&& 0xFF = 0xFF
    · cases hmodel : model.is68020 with
      | true =>
        rw [hlater.last hmodel, if_pos ⟨hlast, rfl⟩]
        refine .fixed (l := nextLong) (f := fun d => branchForm w (.long, d.toInt32))
          (by decide) .nextLong (fun _ => branchForm_relatives ..) fun _ =>
            (branchForm_faithful hline (fun _ => hmodel) fun _ _ => ?_).1
        rw [hbyte, hlast]
        rfl
      | false =>
        rw [if_neg fun h => Bool.false_ne_true h.2]
        cases hmodel' : model'.is68020 with
        | true => exact .reread hshort.1 hmodel' hshort.2 hlast (branchForm_relatives ..) _
        | false =>
          rw [if_neg fun h => Bool.false_ne_true h.2]
          exact .done (branchForm_relatives ..) hshort.1
    · rw [if_neg fun h => hlast h.1, if_neg fun h => hlast h.1]
      exact .done (branchForm_relatives ..) hshort.1

theorem line7_encoding (hline : w.toNat / 4096 = 7) :
    Encoding model model' w (line7 w) (line7 w) := by
  unfold line7
  cases hbit : bit w 8 with
  | true => exact .unrecognized ..
  | false =>
    have hlow := bit_of_false hbit
    refine .done rfl (.early rfl (by decide) (.plain rfl) (.plain rfl) rfl rfl ?_)
    change 0x7000 + 512 * (upperReg w).val + (signExtend8 w.toUInt32).toNat % 256 = _
    rw [signExtend8, extended_mod, upperReg_val, UInt32.toNat_toUInt8,
      UInt16.toNat_toUInt32]
    omega

theorem shiftOp_faithful {left : Bool} (hlong : v ≠ .long) (hsrc : src.Fits model)
    (hdst : dst.Fits model) (hcount : src.isCount = true)
    (hshift : ((Form.sized (shiftOp kind left) size src dst).withVariant v).isShift = true)
    (hword : ((Form.sized (shiftOp kind left) size src dst).withVariant v).shiftWord
      kind.val left.toNat = w.toNat) :
    ((Form.sized (shiftOp kind left) size src dst).withVariant v).Faithful model w := by
  cases left <;>
    match kind with
    | 0 | 1 | 2 | 3 => exact .early rfl hlong hsrc hdst hcount hshift hword

theorem quickCount_isCount (field : Fin 8) :
    (Operand.immediate (quickCount field)).isCount = true := by
  revert field
  decide

theorem registerShift_faithful (hline : w.toNat / 4096 = 14)
    (hsize : size.bits.val = w.toNat / 64 % 4) : (registerShift w size).Faithful model w := by
  have hcount := quickCount_mod (upperReg w)
  have hkind : (field2 w 3).val = w.toNat / 8 % 4 := val_field2 w 3
  have hleft : (bit w 8).toNat = w.toNat / 256 % 2 := toNat_bit 8
  rw [upperReg_val] at hcount
  unfold registerShift
  cases hbit : bit w 5 with
  | true =>
    have hhigh := bit_of_true hbit
    refine shiftOp_faithful (v := .normal) (by decide) (.plain rfl) (.plain rfl) rfl rfl ?_
    change 0xE020 + 256 * (bit w 8).toNat + 512 * (upperReg w).val +
      (64 * size.bits.val + 8 * (field2 w 3).val + (lowerReg w).val) = _
    rw [hleft, hkind, hsize, upperReg_val, lowerReg_val]
    omega
  | false =>
    have hlow := bit_of_false hbit
    refine shiftOp_faithful (v := .quick) (by decide) (.plain rfl) (.plain rfl)
      (quickCount_isCount _) rfl ?_
    change 0xE000 + 256 * (bit w 8).toNat + 512 * ((quickCount (upperReg w)).toNat % 8) +
      (64 * size.bits.val + 8 * (field2 w 3).val + (lowerReg w).val) = _
    rw [hleft, hkind, hsize, hcount, lowerReg_val]
    omega

theorem memoryShift_encoding (hline : w.toNat / 4096 = 14) (hsize : w.toNat / 64 % 4 = 3)
    (hmemory : w.toNat / 2048 % 2 = 0) :
    Encodes model model' w (memoryShift · w) := by
  have hkind : (field2 w 9).val = w.toNat / 512 % 4 := val_field2 w 9
  have hleft : (bit w 8).toNat = w.toNat / 256 % 2 := toNat_bit 8
  have hop (kind : Fin 4) (left : Bool) : (shiftOp kind left).hasOwnWord = false := by
    revert kind left
    decide
  refine .checked_dst (fun _ _ h => h.memoryAlterable)
    (fun _ => ⟨rfl, leadWords_sized (hop ..) .., rfl⟩) fun o ho hallowed =>
      shiftOp_faithful (v := .normal) (by decide) (.plain rfl) ho.fits rfl ?_ ?_
  · exact Bool.or_eq_true_iff.mpr (.inl (Operand.isMemory_of_isMemoryAlterable hallowed))
  · change 0xE0C0 + 512 * (field2 w 9).val + 256 * (bit w 8).toNat + o.field = _
    rw [hkind, hleft, ho.field]
    omega

theorem bitField_encoding (hlater : model.Later model') (hline : w.toNat / 4096 = 14) (hsize : w.toNat / 64 % 4 = 3)
    (hfields : w.toNat / 2048 % 2 = 1) :
    Encodes model model' w (bitField · w) := by
  have hbits (field : Fin 8) : (bitFieldOp field).bits = field.val := by
    revert field
    decide
  refine .gated_last hlater Model.wideOps_eq fun hmodel => ?_
  refine .operand (by decide) .next (fun _ _ h => by rw [h.dataRegister, h.control]) (fun _ => id)
    (fun _ _ => ⟨.inl rfl, rfl, rfl⟩) fun _ o ho _ =>
      .last hmodel rfl rfl ?_
  change 0xE8C0 + 256 * (bitFieldOp (field3 w 8)).bits + o.field = _
  rw [hbits, val_field3, ho.field]
  omega

theorem lineE_encoding (hlater : model.Later model') (hline : w.toNat / 4096 = 14) :
    Encodes model model' w (lineE · w) := by
  unfold lineE
  split
  · exact .done (by unfold registerShift; split <;> rfl)
      (registerShift_faithful hline (size_of_eq ‹_›))
  · have hsize := size_of_none ‹_›
    cases hbit : bit w 11 with
    | true => exact bitField_encoding hlater hline hsize (bit_of_true hbit)
    | false => exact memoryShift_encoding hline hsize (bit_of_false hbit)

theorem addressAndBounds_encoding (hlater : model.Later model') (hline : w.toNat / 4096 = 4) :
    Encodes model model' w (addressAndBounds · w) := by
  unfold addressAndBounds
  split
  · have hseven := opmode_of_eq ‹_›
    split
    · rename_i hextend
      have hzero := mode_of_eq hextend.1
      have hfour := upper_of_eq hextend.2
      refine .gated_last hlater Model.longBranches_eq fun hmodel =>
        .done rfl (.last hmodel rfl rfl (lower_word 0x49C0 (by omega)))
    · exact .checked_src (fun _ _ h => h.control) (fun _ => ⟨rfl, rfl, rfl, rfl⟩)
        fun o ho hallowed => .early rfl (by decide) ho.fits (.plain rfl)
          (Operand.isMemory_of_isControl hallowed) rfl (product_word 0x41C0 ho (by omega))
  · have := opmode_of_eq ‹_›
    exact .checked_src (fun _ _ h => h.data) (fun _ => ⟨rfl, rfl, rfl, rfl⟩) fun o ho _ =>
      ⟨ho.value, rfl, .of_operands (fun h => by cases h) rfl ho.fits (.plain rfl),
        product_word 0x4180 ho (by omega)⟩
  · have := opmode_of_eq ‹_›
    refine .gated_last hlater Model.longBranches_eq fun hmodel => ?_
    exact .checked_src (fun _ _ h => h.data) (fun _ => ⟨rfl, rfl, rfl, rfl⟩) fun o ho _ =>
      .last hmodel ho.value rfl
        (product_word 0x4100 ho (by omega))
  · exact .unrecognized ..

theorem negateDecimal_encoding (hlater : model.Later model') (hbase : w.toNat / 64 * 64 = 0x4800) :
    Encodes model model' w (negateDecimal · w) := by
  unfold negateDecimal
  split
  · have := mode_of_eq ‹_›
    exact .gated_last hlater Model.longBranches_eq fun hmodel => .fixed (by decide) .nextLong (fun _ => rfl) fun _ =>
        .last hmodel rfl rfl (lower_word 0x4808 (by omega))
  · exact .checked_dst (fun _ _ h => h.dataAlterable) (fun _ => ⟨rfl, rfl, rfl⟩) fun o ho hallowed =>
      .early rfl (by decide) (.plain rfl) ho.fits (Operand.isPlace_of_isDataAlterable hallowed) rfl
        (under_word ho hbase)

theorem swapOrPush_encoding (hlater : model.Later model') (hbase : w.toNat / 64 * 64 = 0x4840) :
    Encodes model model' w (swapOrPush · w) := by
  dsimp only [Encodes, swapOrPush]
  by_cases hswap : mode w = 0
  · have := mode_of_eq hswap
    simp only [hswap, if_true]
    refine .done rfl (.early rfl (by decide) (.plain rfl) (.plain rfl) rfl rfl (lower_word 0x4840 (by omega)))
  · rw [if_neg hswap, if_neg hswap]
    by_cases hbreak : mode w = 1
    · have hone := mode_of_eq hbreak
      cases hmodel : model.is68010OrLater with
      | true =>
        have hboth : (decide (mode w = 1) && true) = true := by
          rw [hbreak]
          rfl
        rw [hlater.second hmodel, if_pos hboth, if_pos hboth]
        refine .done rfl (.second hmodel rfl (.plain rfl) (.plain rfl) rfl rfl ?_)
        change 0x4848 + ((lowerReg w).val.toUInt32).toNat = _
        rw [Nat.toUInt32, UInt32.toNat_ofNat', lowerReg_val]
        omega
      | false =>
        -- the first model takes the word for a PEA of an address register
        have hoperand : operandOf model w .long = .done (.addr (lowerReg w)) := by
          rw [operandOf, show field3 w 3 = 1 from hbreak]
          rfl
        rw [if_neg (by rw [Bool.and_false]; decide), hoperand]
        exact .refused (fun _ h => by cases h) _
    · have hplain (model : Model) : ¬(decide (mode w = 1) && model.is68010OrLater) = true := by
        rw [decide_eq_false hbreak, Bool.false_and]
        decide
      rw [if_neg (hplain model), if_neg (hplain model')]
      exact .checked_src (fun _ _ h => h.control) (fun _ => ⟨rfl, rfl, rfl, rfl⟩)
        fun o ho hallowed => .early rfl (by decide) ho.fits (.plain rfl)
          (Operand.isMemory_of_isControl hallowed) rfl (under_word ho hbase)

theorem storeMultiple_encoding (hsize : size ≠ .byte)
    (hbase : w.toNat / 64 * 64 = 0x4880 + 64 * (Extra.size size).longBit) :
    Encodes model model' w (storeMultiple · w size) := by
  unfold storeMultiple
  split
  · have := mode_of_eq ‹_›
    refine .done rfl (.early rfl (by decide) (.plain rfl) (.plain rfl) rfl rfl ?_)
    change 0x4880 + 64 * (Extra.size size).longBit + (lowerReg w).val = _
    rw [lowerReg_val]
    omega
  · refine .operand (by decide) .next (fun _ _ h => by rw [h.control, h.alterable, h.preDec])
      (fun _ => id) (fun _ _ => ⟨.inl rfl, rfl, rfl⟩) fun mask o ho hallowed =>
        .early rfl (by decide) (.plain rfl) ho.fits ?_ rfl (under_word ho hbase)
    have hmemory : o.isMemory = true := by
      rcases Bool.or_eq_true_iff.mp hallowed with h | h
      · exact Operand.isMemory_of_isControl (Bool.and_eq_true_iff.mp h).1
      · exact Operand.isMemory_of_isPreDec h
    simp [Form.shaped, hmemory, hsize]

theorem loadMultiple_encoding (hsize : size ≠ .byte)
    (hbase : w.toNat / 64 * 64 = 0x4C80 + 64 * (Extra.size size).longBit) :
    Encodes model model' w (loadMultiple · w size) := by
  refine .operand (by decide) .next (fun _ _ h => by rw [h.control, h.postInc]) (fun _ => id)
    (fun _ _ => ⟨.inr ⟨rfl, fun h => by cases h⟩, rfl, rfl⟩) fun mask o ho hallowed => ?_
  have hmemory : o.isMemory = true := by
    rcases Bool.or_eq_true_iff.mp hallowed with h | h
    · exact Operand.isMemory_of_isControl h
    · exact Operand.isMemory_of_isPostInc h
  refine .early rfl (by decide) ho.fits (.plain rfl) ?_ ?_ ?_
  · simp [Form.shaped, hmemory, hsize]
  · exact Bool.or_true _
  · change Form.listWord _ = _
    simp only [Form.listWord, hmemory, if_true]
    exact under_word ho hbase

theorem allowed_later (hlater : model.Later model') {op ok more : Bool}
    (hmore : ok = true → more = true) (h : (if op && model.is68020 then more else ok) = true) :
    (if op && model'.is68020 then more else ok) = true := by
  cases op with
  | false => exact h
  | true =>
    cases hmodel : model.is68020 with
    | true =>
      rw [hmodel] at h
      rw [hlater.last hmodel]
      exact h
    | false =>
      rw [hmodel] at h
      cases model'.is68020 with
      | true => exact hmore h
      | false => exact h

theorem unaryArithmetic_encoding (hlater : model.Later model') (hline : w.toNat / 4096 = 4)
    (hbit : w.toNat / 256 % 2 = 0) :
    Encodes model model' w (unaryArithmetic · w) := by
  refine .sized fun size hsize => ?_
  have hbits := size_of_eq hsize
  have hwords : ∀ field op, unaryOp field = some op → op.hasOwnWord = false := by
    decide
  cases hop : unaryOp (upperReg w) with
  | none => exact .unrecognized ..
  | some op =>
    refine .checked (fun _ _ h => by rw [h.addressRegister, h.dataAlterable]) (fun o hallowed => ?_)
      (fun _ => ⟨.inl rfl, leadWords_sized (hwords _ _ hop) .., rfl⟩) fun o ho hallowed => ?_
    · refine allowed_later hlater (fun h => ?_) hallowed
      rw [Operand.isDataAlterable, Bool.and_eq_true, Bool.not_eq_true'] at h
      rw [h.2, Bool.and_false]
      rfl
    · have hword : 0x4000 + 512 * (upperReg w).val + 64 * size.bits.val + o.field = w.toNat := by
        rw [ho.field, hbits, upperReg_val]
        omega
      have hplace (h : op ≠ .tst) : o.isPlace = true := by
        rw [if_neg (by simp [h])] at hallowed
        exact Operand.isPlace_of_isDataAlterable hallowed
      revert hword
      generalize upperReg w = field at hop
      intro hword
      unfold unaryOp at hop
      split at hop
      case h_5 =>
        obtain rfl := Option.some.inj hop
        exact .early rfl (by decide) (.plain rfl) ho.fits ho.value rfl hword
      case h_6 => cases hop
      all_goals
        obtain rfl := Option.some.inj hop
        exact .early rfl (by decide) (.plain rfl) ho.fits (hplace (by decide)) rfl hword

theorem longArithmetic_encoding (hlater : model.Later model') (hbase : w.toNat / 64 * 64 = base)
    (hop : op = .mulLong ∧ base = 0x4C00 ∨ op = .divLong ∧ base = 0x4C40) :
    Encodes model model' w (longArithmetic · w op) := by
  refine .gated_last hlater Model.wideOps_eq fun hmodel => ?_
  rcases hop with ⟨rfl, rfl⟩ | ⟨rfl, rfl⟩ <;>
    exact .operand (by decide) .next (fun _ _ h => h.data) (fun _ => id)
      (fun _ _ => ⟨.inr ⟨rfl, fun h => by cases h⟩, rfl, rfl⟩) fun _ o ho _ =>
        .last hmodel rfl rfl (under_word ho hbase)

theorem operandForms_encoding (hlater : model.Later model') (hline : w.toNat / 4096 = 4)
    (hbit : w.toNat / 256 % 2 = 0) :
    Encodes model model' w (operandForms · w) := by
  unfold operandForms
  rw [toNat_and_FFC0]
  split
  case h_1 | h_2 =>
    exact .checked_src (fun _ _ h => h.control) (fun _ => ⟨rfl, rfl, rfl, rfl⟩)
      fun o ho hallowed => .early rfl (by decide) ho.fits (.plain rfl)
        (Operand.isMemory_of_isControl hallowed) rfl (under_word ho ‹_›)
  case h_3 | h_11 =>
    exact .checked_dst (fun _ _ h => h.dataAlterable) (fun _ => ⟨rfl, rfl, rfl⟩) fun o ho hallowed =>
      .early rfl (by decide) (.plain rfl) ho.fits (Operand.isPlace_of_isDataAlterable hallowed) rfl
        (under_word ho ‹_›)
  · exact .gated hlater.second fun hmodel =>
      .checked_dst (fun _ _ h => h.dataAlterable) (fun _ => ⟨rfl, rfl, rfl⟩) fun o ho hallowed =>
        .second hmodel rfl (.plain rfl) ho.fits (Operand.isPlace_of_isDataAlterable hallowed) rfl
          (under_word ho ‹_›)
  case h_5 | h_6 =>
    exact .checked_src (fun _ _ h => h.data) (fun _ => ⟨rfl, rfl, rfl, rfl⟩) fun o ho _ =>
      .early rfl (by decide) ho.fits (.plain rfl) ho.value rfl (under_word ho ‹_›)
  · exact negateDecimal_encoding hlater ‹_›
  · exact swapOrPush_encoding hlater ‹_›
  case h_9 | h_10 => exact storeMultiple_encoding (by decide) ‹_›
  case h_12 | h_13 => exact loadMultiple_encoding (by decide) ‹_›
  · exact longArithmetic_encoding hlater ‹_› (.inl ⟨rfl, rfl⟩)
  · exact longArithmetic_encoding hlater ‹_› (.inr ⟨rfl, rfl⟩)
  · exact unaryArithmetic_encoding hlater hline hbit

theorem relatives_general (op : Op) (v : Variant) (extra : Extra) (o : Operand) (reg : Fin 16) :
    (Form.mk op v extra o (.general reg)).relatives = [o].filter Operand.isPcRelative ∧
      (Form.mk op v extra (.general reg) o).relatives = [o].filter Operand.isPcRelative := by
  unfold Operand.general
  split <;> exact ⟨rfl, rfl⟩

theorem controlMove_encoding (hmodel : model.is68010OrLater = true)
    (hw : w.toNat = 0x4E7A ∨ w.toNat = 0x4E7B) :
    Encoding model model' w (controlMove w) (controlMove w) := by
  unfold controlMove
  cases hbit : bit w 0 with
  | true =>
    have hodd := bit_of_true hbit
    refine .fixed (by decide) .next (fun _ => (relatives_general ..).2) fun ext =>
      .second hmodel rfl (.plain (Operand.general_isExtended _)) (.plain rfl) rfl rfl ?_
    change 0x4E7B = _
    omega
  | false =>
    have heven := bit_of_false hbit
    refine .fixed (by decide) .next (fun _ => (relatives_general ..).1) fun ext =>
      .second hmodel rfl (.plain rfl) (.plain (Operand.general_isExtended _)) rfl rfl ?_
    have hword : (Form.sized .movec .long (.control (ext &&& 0x0FFF))
        (Operand.general (field4 ext 12))).opcode = 0x4E7A := by
      unfold Operand.general
      split <;> rfl
    refine hword.trans ?_
    omega

theorem fixedForm_encoding (hlater : model.Later model') (h : fixedForm model w = some r) :
    fixedForm model' w = some r ∧ Encoding model model' w r r := by
  unfold fixedForm at h ⊢
  split at h
  case h_4 =>
    obtain rfl := Option.some.inj h
    exact ⟨rfl, .fixed (by decide) .next (fun _ => rfl) fun _ =>
      .early rfl (by decide) (.plain rfl) (.plain rfl) rfl rfl ‹w.toNat = _›.symm⟩
  case h_6 =>
    split at h
    · rename_i hmodel
      obtain rfl := Option.some.inj h
      exact ⟨if_pos (hlater.second hmodel), .fixed (by decide) .next (fun _ => rfl) fun _ =>
        .second hmodel rfl (.plain rfl) (.plain rfl) rfl rfl ‹w.toNat = _›.symm⟩
    · cases h
  case h_10 | h_11 =>
    split at h
    · rename_i hmodel
      obtain rfl := Option.some.inj h
      exact ⟨if_pos (hlater.second hmodel), controlMove_encoding hmodel (by omega)⟩
    · cases h
  case h_12 => cases h
  all_goals
    obtain rfl := Option.some.inj h
    exact ⟨rfl, .done rfl (.early rfl (by decide) (.plain rfl) (.plain rfl) rfl rfl
      ‹w.toNat = _›.symm)⟩

theorem line4_of_none (h : fixedForm model w = none) (h' : fixedForm model' w = some r) :
    line4 model w = .fail (.unrecognized w) := by
  have hword (k : UInt16) (hk : w.toNat = k.toNat) (hnone : fixedForm .m68010 k ≠ none)
      (hnone' : fixedForm .m68020 k ≠ none) (hfirst : line4 .m68000 k = .fail (.unrecognized k)) :
      line4 model w = .fail (.unrecognized w) := by
    obtain rfl := UInt16.toNat_inj.mp hk
    cases model with
    | m68000 => exact hfirst
    | m68010 => exact absurd h hnone
    | m68020 => exact absurd h hnone'
  unfold fixedForm at h h'
  split at h
  case h_6 => exact hword 0x4E74 ‹_› (Option.some_ne_none _) (Option.some_ne_none _) rfl
  case h_10 => exact hword 0x4E7A ‹_› (Option.some_ne_none _) (Option.some_ne_none _) rfl
  case h_11 => exact hword 0x4E7B ‹_› (Option.some_ne_none _) (Option.some_ne_none _) rfl
  case h_12 => simp_all
  all_goals cases h

theorem stackFrame_encoding (hbase : w.toNat / 16 * 16 = 0x4E50) :
    Encoding model model' w (stackFrame w) (stackFrame w) := by
  unfold stackFrame
  cases hbit : bit w 3 with
  | true =>
    have := bit_of_true hbit
    refine .done rfl (.early rfl (by decide) (.plain rfl) (.plain rfl) rfl rfl (lower_word 0x4E58 (by omega)))
  | false =>
    have := bit_of_false hbit
    refine .fixed (by decide) .next (fun _ => rfl) fun _ =>
      ⟨rfl, rfl, .of_operands (fun h => by cases h) rfl (.plain rfl) (.plain rfl), ?_⟩
    change 0x4E50 + (lowerReg w).val = _
    rw [lowerReg_val]
    omega

theorem userStackMove_faithful (hbase : w.toNat / 16 * 16 = 0x4E60) :
    (userStackMove w).Faithful model w := by
  unfold userStackMove
  cases hbit : bit w 3 with
  | true =>
    have := bit_of_true hbit
    refine .early rfl (by decide) (.plain rfl) (.plain rfl) rfl rfl (lower_word 0x4E68 (by omega))
  | false =>
    have := bit_of_false hbit
    refine .early rfl (by decide) (.plain rfl) (.plain rfl) rfl rfl (lower_word 0x4E60 (by omega))

theorem line4_encoding (hlater : model.Later model') (hline : w.toNat / 4096 = 4) :
    Encodes model model' w (line4 · w) := by
  dsimp only [Encodes]
  cases hfixed : fixedForm model w with
  | some r =>
    obtain ⟨hfixed', hencoding⟩ := fixedForm_encoding hlater hfixed
    rw [line4, line4, hfixed, hfixed']
    exact hencoding
  | none =>
    cases hfixed' : fixedForm model' w with
    | some r' =>
      rw [line4_of_none hfixed hfixed']
      exact .unrecognized ..
    | none =>
      rw [line4, line4, hfixed, hfixed', toNat_and_FFF0]
      dsimp only
      split
      · refine .done rfl (.early rfl (by decide) (.plain rfl) (.plain rfl) rfl rfl ?_)
        change 0x4E40 + ((w &&& 0xF).toUInt32).toNat = _
        rw [UInt16.toNat_toUInt32, toNat_and_F]
        omega
      · exact stackFrame_encoding ‹_›
      · exact .done (by unfold userStackMove; split <;> rfl) (userStackMove_faithful ‹_›)
      · cases hbit : bit w 8 with
        | true => exact addressAndBounds_encoding hlater hline
        | false => exact operandForms_encoding hlater hline (bit_of_false hbit)

theorem bitOp_faithful (hlong : v ≠ .long) (hsrc : src.Fits model) (hdst : dst.Fits model)
    (hnumber : (src.isDataRegister || src.isImmediate) = true) (hvalue : dst.isValue = true)
    (hplace : bitOp kind ≠ .btst → dst.isPlace = true)
    (hword : ((Form.sized (bitOp kind) size src dst).withVariant v).bitWord kind.val = w.toNat) :
    ((Form.sized (bitOp kind) size src dst).withVariant v).Faithful model w := by
  match kind with
  | 0 => exact .early rfl hlong hsrc hdst hvalue hnumber hword
  | 1 | 2 | 3 => exact .early rfl hlong hsrc hdst (hplace (by decide)) hnumber hword

theorem bitOp_leadWords (kind : Fin 4) (size : Size) (src dst : Operand) :
    (Form.sized (bitOp kind) size src dst).leadWords = 0 ∧
      ((Form.sized (bitOp kind) size src dst).withVariant .immediate).leadWords = 1 := by
  match kind with
  | 0 | 1 | 2 | 3 => exact ⟨rfl, rfl⟩

theorem dynamicBit_encoding (hline : w.toNat / 4096 = 0) (hbit : w.toNat / 256 % 2 = 1) :
    Encodes model model' w (dynamicBit · w) := by
  have hkind : (field2 w 6).val = w.toNat / 64 % 4 := val_field2 w 6
  refine .checked_dst (fun _ _ h => by rw [h.data, h.dataAlterable])
    (fun _ => ⟨rfl, (bitOp_leadWords ..).1, rfl⟩) fun o ho hallowed =>
      bitOp_faithful (v := .normal) (by decide) (.plain rfl) ho.fits rfl ho.value (fun h => ?_) ?_
  · rw [if_neg h] at hallowed
    exact Operand.isPlace_of_isDataAlterable hallowed
  · change 0x0100 + 512 * (upperReg w).val + (64 * (field2 w 6).val + o.field) = _
    rw [hkind, ho.field, upperReg_val]
    omega

theorem staticBit_encoding (hline : w.toNat / 4096 = 0) (hbit : w.toNat / 256 % 2 = 0)
    (hupper : upperReg w = 4) :
    Encodes model model' w (staticBit · w) := by
  have hkind : (field2 w 6).val = w.toNat / 64 % 4 := val_field2 w 6
  have hfour := upper_of_eq hupper
  refine .operand (by decide) .next (fun _ _ h => by rw [h.data, h.immediate, h.dataAlterable])
    (fun _ => id) (fun _ _ => ⟨.inl rfl, (bitOp_leadWords ..).2, rfl⟩) fun _ o ho hallowed =>
      bitOp_faithful (v := .immediate) (by decide) (.plain rfl) ho.fits rfl ho.value (fun h => ?_) ?_
  · rw [if_neg h] at hallowed
    exact Operand.isPlace_of_isDataAlterable hallowed
  · change 0x0800 + 64 * (field2 w 6).val + o.field = _
    rw [hkind, ho.field]
    omega

theorem peripheralMove_encoding (hline : w.toNat / 4096 = 0) (hbit : w.toNat / 256 % 2 = 1)
    (hmode : mode w = 1) :
    Encoding model model' w (peripheralMove w) (peripheralMove w) := by
  have hone := mode_of_eq hmode
  have hlong : (Extra.size (if bit w 6 then Size.long else .word)).longBit =
      w.toNat / 64 % 2 := by
    refine Eq.trans ?_ (toNat_bit 6)
    cases bit w 6 <;> rfl
  unfold peripheralMove
  cases hstore : bit w 7 with
  | true =>
    have := bit_of_true hstore
    refine .fixed (by decide) .next (fun _ => rfl) fun _ =>
      .early rfl (by decide) (.plain rfl) (.plain rfl) rfl rfl ?_
    change 0x0188 + 512 * (upperReg w).val + (64 * (Extra.size _).longBit + (lowerReg w).val) = _
    rw [hlong, upperReg_val, lowerReg_val]
    omega
  | false =>
    have := bit_of_false hstore
    refine .fixed (by decide) .next (fun _ => rfl) fun _ =>
      .early rfl (by decide) (.plain rfl) (.plain rfl) rfl rfl ?_
    change 0x0108 + 512 * (upperReg w).val + (64 * (Extra.size _).longBit + (lowerReg w).val) = _
    rw [hlong, upperReg_val, lowerReg_val]
    omega

/-- MOVES, by the direction bit of its extension word. -/
def spaceForm (size : Size) (ext : UInt16) (memory : Operand) : Form :=
  if bit ext 11 then .sized .moves size (.general (field4 ext 12)) memory
  else .sized .moves size memory (.general (field4 ext 12))

theorem spaceForm_faithful (hmodel : model.is68010OrLater = true) (hline : w.toNat / 4096 = 0)
    (hbit : w.toNat / 256 % 2 = 0) (hupper : upperReg w = 7)
    (hsize : size.bits.val = w.toNat / 64 % 4) (ext : UInt16) (ho : o.ReadFrom model w)
    (hmemory : o.isMemory = true) : (spaceForm size ext o).Faithful model w := by
  have hseven := upper_of_eq hupper
  have hword : 0x0E00 + 64 * size.bits.val + o.field = w.toNat := by
    rw [ho.field, hsize]
    omega
  have hplain : (Operand.general (field4 ext 12)).Fits model :=
    .plain (Operand.general_isExtended (field4 ext 12))
  unfold spaceForm
  split
  · refine .second hmodel rfl hplain ho.fits rfl rfl ?_
    change Form.spaceWord _ = _
    simp only [Form.spaceWord, hmemory, if_true]
    exact hword
  · refine .second hmodel rfl ho.fits hplain rfl rfl ?_
    change Form.spaceWord _ = _
    simp only [Form.spaceWord, Operand.general_isMemory, Bool.false_eq_true, if_false]
    exact hword

theorem spaceMove_encoding (hlater : model.Later model') (hline : w.toNat / 4096 = 0)
    (hbit : w.toNat / 256 % 2 = 0) (hupper : upperReg w = 7) :
    Encodes model model' w (spaceMove · w) := by
  dsimp only [Encodes]
  have hform (model : Model) : spaceMove model w = requireModel model.is68010OrLater w >>= fun _ =>
      sizeOr (Size.ofBits (field2 w 6)) w >>= fun size => next >>= fun ext =>
        operandOf model w size >>= fun o => require o.isMemoryAlterable o >>= fun _ =>
          .done (spaceForm size ext o) := by
    unfold spaceMove spaceForm
    simp only [apply_ite WordReader.done]
    rfl
  rw [hform, hform]
  refine .gated hlater.second fun hmodel => .sized fun size hsize => ?_
  refine .operand (by decide) .next (fun _ _ h => h.memoryAlterable) (fun _ => id)
    (fun ext o => ?_) fun ext o ho hallowed =>
      spaceForm_faithful hmodel hline hbit hupper (size_of_eq hsize) ext ho
        (Operand.isMemory_of_isMemoryAlterable hallowed)
  unfold spaceForm
  split
  · exact ⟨.inl rfl, rfl, (relatives_general ..).2⟩
  · exact ⟨.inr ⟨rfl, fun h => by cases h⟩, rfl, (relatives_general ..).1⟩

theorem immediateOp_faithful (hfour : field ≠ 4) (hseven : field ≠ 7) (hfits : o.Fits model)
    (hvalue : o.isValue = true) (hplace : immediateOp field ≠ .cmp → o.isPlace = true)
    (hword : 512 * field.val + 64 * size.bits.val + o.field = w.toNat) :
    ((Form.sized (immediateOp field) size (.immediate value) o).withVariant .immediate).Faithful
      model w := by
  match field with
  | 0 | 1 | 2 | 3 | 5 =>
    exact .early rfl (by decide) (.plain rfl) hfits (hplace (by decide)) rfl hword
  | 4 => exact absurd rfl hfour
  | 6 => exact .early rfl (by decide) (.plain rfl) hfits hvalue rfl hword
  | 7 => exact absurd rfl hseven

theorem immediateArithmetic_encoding (hlater : model.Later model') (hline : w.toNat / 4096 = 0)
    (hbit : w.toNat / 256 % 2 = 0) (hfour : upperReg w ≠ 4) (hseven : upperReg w ≠ 7) :
    Encodes model model' w (immediateArithmetic · w) := by
  refine .sized fun size hsize => ?_
  have hbits := size_of_eq hsize
  have hwords (field : Fin 8) (src dst : Operand) :
      ((Form.sized (immediateOp field) size src dst).withVariant .immediate).leadWords =
        size.immediateWords := by
    unfold immediateOp
    split <;> rfl
  refine .operand size.immediateWords_le (immediate_fixed size)
    (fun _ _ h => by rw [h.data, h.immediate, h.dataAlterable])
    (fun o hallowed => ?_) (fun _ _ => ⟨.inl rfl, hwords .., rfl⟩) fun value o ho hallowed =>
      immediateOp_faithful hfour hseven ho.fits ho.value (fun h => ?_) ?_
  · refine allowed_later hlater (fun h => ?_) hallowed
    have hplace := Operand.isPlace_of_isDataAlterable h
    rw [Operand.isDataAlterable, Bool.and_eq_true, Bool.not_eq_true'] at h
    rw [Operand.isImmediate_of_isPlace hplace, Operand.isData]
    rw [Operand.isPlace, Operand.isRegister_eq, h.2, Bool.or_false] at hplace
    rw [hplace]
    rfl
  · rw [if_neg (by simp [h])] at hallowed
    exact Operand.isPlace_of_isDataAlterable hallowed
  · rw [ho.field, hbits, upperReg_val]
    omega

theorem boundsCheck_encoding (hmodel : model.is68020 = true) (hline : w.toNat / 4096 = 0)
    (hbit : w.toNat / 64 % 8 = 3) (hupper : w.toNat / 512 % 8 < 4) :
    Encodes model model' w (boundsCheck · w) := by
  have hbits : ∀ field size, Size.ofBits field = some size → size.bits.val = field.val := by
    decide
  refine .sized fun size hsize => ?_
  have hval := hbits _ _ hsize
  rw [val_field2] at hval
  refine .operand (by decide) .next (fun _ _ h => h.control) (fun _ => id)
    (fun _ _ => ⟨.inr ⟨rfl, fun h => by cases h⟩, rfl, (relatives_general ..).1⟩) fun _ o ho _ =>
      .last hmodel rfl rfl ?_
  change 0x00C0 + 512 * size.bits.val + o.field = _
  rw [ho.field, hval]
  omega

theorem compareAndSwap_encoding (hmodel : model.is68020 = true) (hline : w.toNat / 4096 = 0)
    (hbit : w.toNat / 64 % 8 = 3) (hsize : w.toNat / 512 % 8 = 5 + size.bits.val) :
    Encodes model model' w (compareAndSwap · w size) := by
  unfold compareAndSwap
  split
  · exact .unrecognized ..
  · refine .operand (by decide) .next (fun _ _ h => h.memoryAlterable) (fun _ => id)
      (fun _ _ => ⟨.inl rfl, rfl, rfl⟩) fun _ o ho _ => .last hmodel rfl rfl ?_
    change 0x0AC0 + 512 * size.bits.val + o.field = _
    rw [ho.field]
    omega

theorem wideImmediate_encoding (hlater : model.Later model') (hline : w.toNat / 4096 = 0)
    (hbit : w.toNat / 64 % 8 = 3) :
    Encodes model model' w (wideImmediate · w) := by
  refine .gated_last hlater Model.wideOps_eq fun hmodel => ?_
  split
  case h_1 | h_2 | h_3 =>
    exact boundsCheck_encoding hmodel hline hbit (by rw [upper_of_eq ‹_›]; decide)
  case h_7 => exact .unrecognized ..
  all_goals exact compareAndSwap_encoding hmodel hline hbit (upper_of_eq ‹_›)

/-- The status registers stand where a logical operation would find an immediate destination. -/
theorem statusOp_faithful (h : isLogical field = true) :
    (512 * field.val + 0x3C = w.toNat →
      (Form.sized (ccrOp field) size (.immediate value) .ccr).Faithful model w) ∧
    (512 * field.val + 0x7C = w.toNat →
      (Form.sized (srOp field) size (.immediate value) .sr).Faithful model w) := by
  have hcases : ∀ field, isLogical field = true → field = 0 ∨ field = 1 ∨ field = 5 := by
    decide
  rcases hcases field h with rfl | rfl | rfl <;>
    exact ⟨fun hword => .early rfl (by decide) (.plain rfl) (.plain rfl) rfl rfl hword,
      fun hword => .early rfl (by decide) (.plain rfl) (.plain rfl) rfl rfl hword⟩

theorem byte_of_eq {k : UInt16} (h : w &&& 0xFF = k) : w.toNat % 256 = k.toNat := by
  rw [← h, toNat_and_FF]

theorem line0_encoding (hlater : model.Later model') (hline : w.toNat / 4096 = 0) :
    Encodes model model' w (line0 · w) := by
  dsimp only [Encodes]
  unfold line0
  cases hbit : bit w 8 with
  | true =>
    have hhigh := bit_of_true hbit
    rw [if_pos rfl, if_pos rfl]
    split
    · exact peripheralMove_encoding hline hhigh ‹_›
    · exact dynamicBit_encoding hline hhigh
  | false =>
    have hlow : w.toNat / 256 % 2 = 0 := bit_of_false hbit
    rw [if_neg Bool.false_ne_true, if_neg Bool.false_ne_true]
    split
    · exact staticBit_encoding hline hlow ‹_›
    · rename_i hfour
      split
      · rename_i hwide
        have hthree := congrArg Fin.val hwide
        rw [val_field2] at hthree
        exact wideImmediate_encoding hlater hline (by omega)
      · split
        · rename_i hccr
          obtain ⟨hlogical, hbyte⟩ := Bool.and_eq_true_iff.mp hccr
          have hvalue : w.toNat % 256 = 0x3C := byte_of_eq (of_decide_eq_true hbyte)
          refine .fixed (by decide) .next (fun _ => rfl) fun _ => (statusOp_faithful hlogical).1 ?_
          rw [upperReg_val]
          omega
        · split
          · rename_i hsr
            obtain ⟨hlogical, hbyte⟩ := Bool.and_eq_true_iff.mp hsr
            have hvalue : w.toNat % 256 = 0x7C := byte_of_eq (of_decide_eq_true hbyte)
            refine .fixed (by decide) .next (fun _ => rfl) fun _ => (statusOp_faithful hlogical).2 ?_
            rw [upperReg_val]
            omega
          · split
            · exact spaceMove_encoding hlater hline hlow ‹_›
            · exact immediateArithmetic_encoding hlater hline hlow hfour ‹_›

theorem form_encoding (hlater : model.Later model') (w : UInt16) :
    Encodes model model' w (form · w) := by
  have hline {op : Op} (hop : op.isEarly = true)
      (h : ∀ extra src, (Form.mk op .normal extra src .none).shaped = true ∧
        (Form.mk op .normal extra src .none).apt = true ∧
        (Form.mk op .normal extra src .none).opcode = src.literal) :
      Encoding model model' w (.done (.unsized op (.immediate w.toUInt32) .none))
        (.done (.unsized op (.immediate w.toUInt32) .none)) := by
    obtain ⟨hshaped, hapt, hword⟩ := h .none (.immediate w.toUInt32)
    exact .done rfl (.early hop (by decide) (.plain rfl) (.plain rfl) hshaped hapt
      (hword.trans (UInt16.toNat_toUInt32 w)))
  unfold form
  split
  · exact line0_encoding hlater (line_of_eq ‹_›)
  case h_2 | h_3 | h_4 => exact .move (by rw [line_of_eq ‹_›]; decide)
  · exact line4_encoding hlater (line_of_eq ‹_›)
  · exact line5_encoding hlater (line_of_eq ‹_›)
  · exact line6_encoding hlater (line_of_eq ‹_›)
  · exact line7_encoding (line_of_eq ‹_›)
  · exact line8_encoding hlater (line_of_eq ‹_›)
  · exact lineSum_encoding (by rw [line_of_eq ‹_›]; rfl) .sub rfl fun _ _ _ => ⟨rfl, rfl, rfl⟩
  · exact hline rfl fun _ _ => ⟨rfl, rfl, rfl⟩
  · exact lineB_encoding (line_of_eq ‹_›)
  · exact lineC_encoding (line_of_eq ‹_›)
  · exact lineSum_encoding (by rw [line_of_eq ‹_›]; rfl) .add rfl fun _ _ _ => ⟨rfl, rfl, rfl⟩
  · exact lineE_encoding hlater (line_of_eq ‹_›)
  · exact hline rfl fun _ _ => ⟨rfl, rfl, rfl⟩

end Lines

end Decode

end Dynarec68k
