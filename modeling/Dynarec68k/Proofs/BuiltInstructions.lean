import Dynarec68k.Proofs.BuiltOperands

namespace Dynarec68k

open Host Codegen Role Operand Instruction

namespace Operand

variable {operand : Operand}

theorem exists_data (h : operand.isDataRegister = true) : ∃ reg, operand = .data reg := by
  cases operand with
  | data reg => exact ⟨reg, rfl⟩
  | _ => cases h

theorem exists_addr (h : operand.isAddressRegister = true) : ∃ reg, operand = .addr reg := by
  cases operand with
  | addr reg => exact ⟨reg, rfl⟩
  | _ => cases h

theorem exists_immediate (h : operand.isImmediate = true) :
    ∃ value, operand = .immediate value := by
  cases operand with
  | immediate value => exact ⟨value, rfl⟩
  | _ => cases h

theorem exists_displaced (h : operand.isDisplaced = true) :
    ∃ reg disp, operand = .displaced reg disp := by
  cases operand with
  | displaced reg disp => exact ⟨reg, disp, rfl⟩
  | _ => cases h

theorem exists_regList (h : operand.isRegList = true) : ∃ mask, operand = .regList mask := by
  cases operand with
  | regList mask => exact ⟨mask, rfl⟩
  | _ => cases h

end Operand

theorem Instruction.exists_condition {inst : Instruction} (h : inst.extra.isCondition = true) :
    ∃ condition, inst.condition? = some condition := by
  unfold condition?
  cases hextra : inst.extra with
  | cond condition => exact ⟨condition, rfl⟩
  | _ =>
    rw [hextra] at h
    cases h

theorem Instruction.size_ne_byte (inst : Instruction) (h : inst.extra ≠ .size .byte) :
    inst.size ≠ .byte := by
  rw [size, size?]
  cases hextra : inst.extra with
  | size size =>
    rintro rfl
    exact h hextra
  | _ => exact (by decide : Size.word ≠ .byte)

theorem Codegen.addressClocks_le (operand : Operand) (size : Size) :
    addressClocks operand size ≤ 8 := by
  cases operand with
  | immediate value =>
    rw [addressClocks]
    split <;> decide
  | _ => simp [addressClocks]

theorem Codegen.controlClocks_le (operand : Operand) : controlClocks operand ≤ 8 := by
  rw [controlClocks]
  split
  · decide
  · exact addressClocks_le operand .word

namespace Built

variable {config : Config} {inst : Instruction} {u : Bool} {g : Grade} {p : Account} {q : Progress}
  {n : Nat} {f : RegisterAssignment → Fragment} (operand : Operand) {size : Size} {s : Service}

/-- From the first operation of an instruction to where the next one begins. -/
abbrev Falls (config : Config) (inst : Instruction) (u : Bool) (code : Config → Fragment) : Prop :=
  Built config inst u ⟨.loose, .blank, .intact⟩ 256 (fun a => code (config.assign a))
    ⟨.loose, .paid, .loose⟩

/-- From the first operation of an instruction to other code. -/
abbrev Leaves (config : Config) (inst : Instruction) (u : Bool) (code : Config → Fragment) : Prop :=
  Built config inst u ⟨.loose, .blank, .intact⟩ 256 (fun a => code (config.assign a)) .stop

theorem falls (h : Built config inst u ⟨.loose, .blank, .intact⟩ n f ⟨g, .paid, q⟩)
    (hn : n ≤ 256) :
    Built config inst u ⟨.loose, .blank, .intact⟩ 256 f ⟨.loose, .paid, .loose⟩ :=
  h.weaken (.refl _) ⟨by cases g <;> trivial, trivial, by cases q <;> trivial⟩ hn

theorem moveGeneral (hsrc : inst.src.isValue = true) (hdst : inst.dst.isImmediate = false) :
    Falls config inst u (moveGeneral · inst) := by
  have hclocks := addressClocks_le inst.src inst.size
  have hclocks' := controlClocks_le inst.dst
  have hstart : Built config inst u ⟨.loose, .blank, .intact⟩ 48 _ ⟨.loose, .paid, .intact⟩ :=
    (charged (k := 4 + addressClocks inst.src inst.size + controlClocks inst.dst) (by omega)).append (fetchSource inst.pcBase hsrc inst.size)
  simp only [Falls, Codegen.moveGeneral, sourcePlace_eq]
  cases inst.src.isAddressRegister && inst.dst.isMemory with
  | false =>
    have hread := source_readable (g := .loose) inst.src inst.size
    exact ((((hstart.append nil).append (testFlags (hread _))).append
      (locateDest _ _ _)).append (writeDest hdst inst.size hread
        (sourceSpot_ne_field inst.src inst.size))).falls (by decide)
  | true =>
    exact ((((hstart.append (copy (d := .third)
      (source_readable inst.src inst.size .long) (by decide))).append
      (testFlags (s := .scratch .third) (scratch_readable (by decide)))).append
      (locateDest _ _ _)).append (writeDest hdst inst.size (s := .scratch .third)
        (fun _ => scratch_readable (by decide)) fun _ h => by cases h)).falls (by decide)

theorem moveData (hsrc : inst.src.isValue = true) (hdst : inst.dst.isImmediate = false)
    (hapt : (inst.variant != .quick || (inst.src.isImmediate && inst.dst.isDataRegister)) = true) :
    Falls config inst u (moveData · inst) := by
  have hclocks := addressClocks_le inst.src inst.size
  unfold Codegen.moveData
  refine ite (fun hquick => ?_) fun _ => ?_
  · rw [hquick] at hapt
    have hoperands := Bool.and_eq_true_iff.mp hapt
    obtain ⟨value, hvalue⟩ := exists_immediate hoperands.1
    obtain ⟨reg, hreg⟩ := exists_data hoperands.2
    simp only [moveQuick, hvalue, hreg]
    exact (((charged (by decide)).append
      (put (s := .const value) ⟨reg.val, by omega⟩ trivial (.guest _)).anywhere).append
      (setFlags _)).falls (by decide)
  · split
    · rename_i reg _
      simp only [List.append_assoc]
      exact ((charged (by omega)).append (fetchSourceLong inst.pcBase hsrc inst.size
        (f := fun a value => Codegen.mov value (a.place (8 + reg.val)) .long)
        fun g s hs => put ⟨8 + reg.val, by omega⟩ hs (.addr reg))).falls (by decide)
    · exact moveGeneral hsrc hdst

theorem leaClocks_bounds : 0 < leaClocks operand ∧ leaClocks operand ≤ 32 := by
  unfold leaClocks
  split <;> decide

theorem loadAddress (hsrc : inst.src.isMemory = true) (hdst : inst.dst.isAddressRegister = true) :
    Falls config inst u (loadAddress · inst) := by
  obtain ⟨reg, hreg⟩ := exists_addr hdst
  simp only [Codegen.loadAddress, hreg]
  exact (((charged (leaClocks_bounds _)).append (addressFirst _ hsrc _)).append
    (put (s := .scratch .first) ⟨8 + reg.val, by omega⟩ (fun _ => rfl) (.addr reg))).falls (by decide)

theorem pushAddress (hsrc : inst.src.isMemory = true) :
    Falls config inst u (pushAddress · inst) := by
  exact (((charged (leaClocks_bounds _)).append (addressFirst _ hsrc _)).append pushLong).falls (by decide)

theorem enterFrame (hsrc : inst.src.isAddressRegister = true) :
    Falls config inst u (enterFrame · inst) := by
  obtain ⟨reg, hreg⟩ := exists_addr hsrc
  simp only [Codegen.enterFrame, hreg]
  exact (((((((charged (by decide)).append (aluAddr _ _ 7)).append
    (copyFirst (s := .addr reg) trivial)).append
    (copy (s := .addr 7) (d := .second) trivial (by decide))).append
    (.write false (.inr rfl))).append
    (put (s := .addr 7) ⟨8 + reg.val, by omega⟩ trivial (.addr reg))).append (aluAddr _ _ 7)).falls (by decide)

theorem leaveFrame (hsrc : inst.src.isAddressRegister = true) :
    Falls config inst u (leaveFrame · inst) := by
  obtain ⟨reg, hreg⟩ := exists_addr hsrc
  simp only [Codegen.leaveFrame, hreg]
  exact ((((charged (by decide)).append
    (put (s := .addr reg) 15 trivial (.addr 7))).append popLong).append
    (put (s := .scratch .first) ⟨8 + reg.val, by omega⟩ (fun _ => rfl) (.addr reg))).falls (by decide)

/-- What `registerPlace` stands for. -/
def registerSpot : Operand → Spot
  | .addr reg => .addr reg
  | .data reg => .data reg
  | _ => .scratch .temp

theorem registerPlace_eq (c : RegisterAssignment) (operand : Operand) :
    registerPlace (config.assign c) operand = (registerSpot operand).place c := by
  cases operand <;> rfl

theorem registerSpot_usable (g : Grade) (size : Size) :
    (registerSpot operand).Readable g size ∧ (registerSpot operand).Storable u .loose size ∧
      registerSpot operand ≠ .scratch .first := by
  cases operand with
  | addr reg | data reg => exact ⟨trivial, .guest _, fun h => by cases h⟩
  | _ => exact ⟨scratch_readable (by decide), .scratch (by decide), fun h => by cases h⟩

theorem exchange : Falls config inst u (Codegen.exchange · inst) := by
  simp only [Falls, Codegen.exchange, registerPlace_eq]
  obtain ⟨hsrc, hsrc', hne⟩ := registerSpot_usable (u := u) inst.src .loose .long
  obtain ⟨hdst, hdst', hne'⟩ := registerSpot_usable (u := u) inst.dst .loose .long
  exact (((((charged (by decide)).append
    (copy (d := .temp) hsrc (by decide))).append (copyFirst hdst)).append
    (mov (s := .scratch .first) (fun _ => rfl) hsrc' hne).anywhere).append
    (mov (s := .scratch .temp) (scratch_readable (by decide)) hdst' hne')).falls (by decide)

theorem swapHalves (hdst : inst.dst.isDataRegister = true) :
    Falls config inst u (swapHalves · inst) := by
  obtain ⟨reg, hreg⟩ := exists_data hdst
  simp only [Codegen.swapHalves, hreg]
  exact (((charged (by decide)).append
    (shiftBy (d := .data reg) trivial (.guest _)).anywhere).append
    (testFlags (s := .data reg) trivial)).falls (by decide)

theorem extendSign (hdst : inst.dst.isDataRegister = true) :
    Falls config inst u (extendSign · inst) := by
  obtain ⟨reg, hreg⟩ := exists_data hdst
  simp only [Codegen.extendSign, hreg]
  exact ((((charged (by decide)).append
    (movsx (s := .data reg) (d := .temp) trivial (by decide))).append
    (put (s := .scratch .temp) ⟨reg.val, by omega⟩ (scratch_readable (by decide))
      (.guest _)).anywhere).append
    (testFlags (s := .scratch .temp) (scratch_readable (by decide)))).falls (by decide)

theorem listAddress :
    Built config inst u ⟨.loose, p, .intact⟩ 8
      (fun a => listAddress (config.assign a) inst operand) ⟨.loose, p, .intact⟩ := by
  have hinto : Built config inst u ⟨.loose, p, .intact⟩ 8 (fun a => Codegen.addressInto
      (config.assign a) inst.pcBase operand inst.size scratch2) ⟨.loose, p, .intact⟩ :=
    addressInto _ _ _ (d := .second) (by decide)
  cases operand with
  | preDec reg | postInc reg =>
    exact (copy (s := .addr reg) (d := .second) trivial (by decide)).mono (by decide)
  | _ => exact hinto

theorem listUpdate :
    Keeps config inst u ⟨.loose, p, q⟩ fun a => listUpdate (config.assign a) operand := by
  cases operand with
  | preDec reg | postInc reg =>
    exact put (s := .scratch .second) ⟨8 + reg.val, by omega⟩ (scratch_readable (by decide))
      (.addr reg)
  | _ => exact nil

theorem moveList (hsize : inst.size ≠ .byte) (encoded : UInt16) (operand : Operand)
    (toMemory : Bool) :
    Falls config inst u (moveList · inst encoded operand toMemory) := by
  have hclocks := controlClocks_le operand
  have hall : Built config inst u _ 256 _ ⟨.loose, .paid, .loose⟩ :=
    ((((charged (k := 8 + controlClocks operand) (by omega)).append
      (listAddress operand)).append (.list ⟨inst.size, toMemory, operand.isPreDec⟩
        (normalizeRegList encoded operand.isPreDec)
        (decide (Word.population (normalizeRegList encoded operand.isPreDec) ≤
          config.movemInlineLimit.toNat)) hsize)).append (listUpdate operand)).falls (by decide)
  simp only [decide_eq_true_eq, List.append_assoc] at hall
  simp only [Codegen.moveList, List.append_assoc]
  exact hall

theorem moveMultiple (hsize : inst.size ≠ .byte)
    (hapt : (inst.src.isRegList || inst.dst.isRegList) = true) :
    Falls config inst u (moveMultiple · inst) := by
  unfold Codegen.moveMultiple
  split
  · exact moveList hsize _ _ _
  · exact moveList hsize _ _ _
  · rename_i hsrc hdst
    rcases Bool.or_eq_true_iff.mp hapt with hlist | hlist
    · obtain ⟨mask, hmask⟩ := exists_regList hlist
      exact (hsrc mask hmask).elim
    · obtain ⟨mask, hmask⟩ := exists_regList hlist
      exact (hdst mask hmask).elim

theorem stepSecond (value : UInt32) :
    Keeps config inst u ⟨g, p, q⟩ fun _ => Codegen.alu .add (.imm value) (.reg scratch2) .long :=
  aluScratch _ (s := .const value) (d := .second) trivial (fun h => by cases h) (by decide)

theorem peripheralAddress (reg : Fin 8) (disp : Int16) :
    Built config inst u ⟨.loose, p, q⟩ 32 (fun a => peripheralAddress (config.assign a) reg disp)
      ⟨.loose, .paid, q⟩ :=
  ((charged (by decide)).append
    (copy (s := .addr reg) (d := .second) trivial (by decide))).append (stepSecond _)

theorem storePeripheral (data : Fin 8) (k : Nat) :
    Built config inst u ⟨.loose, p, .loose⟩ 8
      (fun a => storePeripheral ((config.assign a).dataPlace data) k) ⟨.loose, p, .loose⟩ :=
  ((((copyFirst (s := .data data) trivial).append
    (ite (fun _ => nil) fun _ => shiftFirst _ _)).append (.write false (.inl rfl))).append
    (stepSecond 2)).relax

theorem loadPeripheral :
    Built config inst u ⟨.loose, p, q⟩ 8 (fun _ => loadPeripheral) ⟨.loose, p, q⟩ :=
  (((((copyFirst (s := .scratch .second) (scratch_readable (by decide))).append
    (.read (.inl rfl))).append
    (shiftBy (d := .scratch .fourth) (scratch_readable (by decide)) (.scratch (by decide)))).append
    (aluScratch _ (s := .scratch .first) (d := .fourth) (fun _ => rfl) (fun h => by cases h)
      (by decide))).append (stepSecond 2)).relax

theorem movePeripheral (hapt : ((inst.src.isDataRegister && inst.dst.isDisplaced) ||
      (inst.src.isDisplaced && inst.dst.isDataRegister)) = true) :
    Falls config inst u (movePeripheral · inst) := by
  have hbytes : inst.size.bytes ≤ 4 := by cases inst.size <;> decide
  simp only [Codegen.movePeripheral]
  rcases Bool.or_eq_true_iff.mp hapt with hto | hfrom
  · obtain ⟨hsrc, hdst⟩ := Bool.and_eq_true_iff.mp hto
    obtain ⟨data, hdata⟩ := exists_data hsrc
    obtain ⟨reg, disp, hdisplaced⟩ := exists_displaced hdst
    rw [hdata, hdisplaced]
    refine ((peripheralAddress reg disp).append
      (flatMap fun k _ => storePeripheral data k)).anywhere.falls ?_
    rw [List.length_reverse, List.length_range]
    omega
  · obtain ⟨hsrc, hdst⟩ := Bool.and_eq_true_iff.mp hfrom
    obtain ⟨reg, disp, hdisplaced⟩ := exists_displaced hsrc
    obtain ⟨data, hdata⟩ := exists_data hdst
    rw [hdata, hdisplaced]
    refine ((((peripheralAddress reg disp).append (load 0 (d := .fourth) (by decide))).append
      (flatMap fun _ _ => loadPeripheral)).append (put (s := .scratch .fourth) ⟨data.val, by omega⟩
        (scratch_readable (by decide)) (.guest _))).anywhere.falls ?_
    rw [List.length_range]
    omega

theorem binary (hsrc : inst.src.isValue = true) (hdst : inst.dst.isImmediate = false) :
    Falls config inst u (binary · inst) := by
  have hclocks := addressClocks_le inst.src inst.size
  have haddress : 0 < addressBinaryClocks inst ∧ addressBinaryClocks inst ≤ 32 := by
    unfold addressBinaryClocks
    split_ifs <;> omega
  have hgeneral : 0 < binaryClocks inst ∧ binaryClocks inst ≤ 32 := by
    simp only [binaryClocks]
    split_ifs <;> omega
  unfold Codegen.binary
  obtain ⟨o, updates⟩ := binaryOp inst.op
  simp only
  split
  · rename_i reg _
    simp only [List.append_assoc]
    exact ((charged haddress).append (fetchSourceLong inst.pcBase hsrc inst.size
      (f := fun a value => Codegen.alu o value (a.place (8 + reg.val)) .long)
      fun g s hs => alu (d := .addr reg) hs trivial (.addr reg))).falls (by decide)
  · simp only [Falls, sourcePlace_eq]
    exact (((charged hgeneral).append (fetchSource inst.pcBase hsrc inst.size)).append
      (modify hdst inst.size fun g q s hs hw =>
        (alu (source_readable inst.src inst.size inst.size) hs hw).append (setFlags updates))).falls (by decide)

theorem useDest {f : RegisterAssignment → Place → Fragment}
    (hf : ∀ (g : Grade) (s : Spot), s.Readable g size →
      Keeps config inst u ⟨g, p, .intact⟩ fun a => f a (s.place a)) :
    Built config inst u ⟨.loose, p, .intact⟩ 8
      (fun a => readDest (destOf (config.assign a) inst.dst size) size ++
        f a (destOf (config.assign a) inst.dst size).value) ⟨.loose, p, .intact⟩ := by
  simp only [destOf_eq]
  cases hdest : destSpot? inst.dst size with
  | some d => exact (append nil (hf .loose d (destSpot?_readable hdest))).mono (by decide)
  | none => exact ((readMemory _ size).append (hf .tight (.scratch .first) fun _ => rfl)).relax

theorem compareInstruction (hsrc : inst.src.isValue = true) :
    Falls config inst u (Codegen.compare · inst) := by
  have hclocks := addressClocks_le inst.src inst.size
  have hcompare : 0 < compareClocks inst ∧ compareClocks inst ≤ 32 := by
    unfold compareClocks
    split_ifs <;> omega
  unfold Codegen.compare
  simp only
  split
  · rename_i reg _
    simp only [List.append_assoc]
    exact ((charged hcompare).append (fetchSourceLong inst.pcBase hsrc inst.size
      (f := fun a value => Codegen.alu .cmp value (a.place (8 + reg.val)) .long ++
        Codegen.setFlags FlagUpdates.comparison)
      fun g s hs => (compare (d := .addr reg) rfl hs trivial).append (setFlags _))).falls (by decide)
  · simp only [Falls, sourcePlace_eq]
    have hall : Built config inst u _ _ _ _ := ((((charged hcompare).append
      (fetchSource inst.pcBase hsrc inst.size)).append
      (locateDest inst.pcBase inst.dst inst.size)).append
      (useDest (f := fun a value => Codegen.alu .cmp ((sourceSpot inst.src inst.size).place a) value
        inst.size ++ Codegen.setFlags FlagUpdates.comparison) fun g s hs =>
        (compare rfl (source_readable inst.src inst.size inst.size) hs).append (setFlags _))).falls (by decide)
    simp only [List.append_assoc] at hall ⊢
    exact hall

section

variable (hdst : inst.dst.isImmediate = false)
include hdst

theorem extendedBinary (hsrc : inst.src.isValue = true) :
    Falls config inst u (extendedBinary · inst) := by
  simp only [Falls, Codegen.extendedBinary, sourcePlace_eq]
  refine ((append (charged ?_) (fetchSource inst.pcBase hsrc inst.size)).append
    (modify hdst inst.size fun g q s hs hw =>
      ((loadExtend.append (alu (source_readable inst.src inst.size inst.size) hs hw)).append
        (setFlags _)).append clearZ)).falls (by decide)
  split_ifs <;> decide

theorem negateExtended (size : Size) :
    Built config inst u ⟨.loose, p, .intact⟩ 24
      (fun a => Codegen.locateDest (config.assign a) inst.pcBase inst.dst size ++
        readDest (destOf (config.assign a) inst.dst size) size ++ Codegen.load 0 temp ++
        Codegen.loadExtend ++
        Codegen.alu .sbb (destOf (config.assign a) inst.dst size).value (.reg temp) size ++
        Codegen.setFlags FlagUpdates.extended ++ Codegen.clearZ ++
        Codegen.writeDest (destOf (config.assign a) inst.dst size) (.reg temp) size)
      ⟨.loose, p, .loose⟩ := by
  have hall : Built config inst u ⟨.loose, p, .intact⟩ 24 _ _ :=
    ((locateDest inst.pcBase inst.dst size).append (useDest (f := fun _ value => Codegen.load 0 temp ++ Codegen.loadExtend ++
      Codegen.alu .sbb value (.reg temp) size ++ Codegen.setFlags FlagUpdates.extended ++
      Codegen.clearZ) fun g s hs => ((((load 0 (d := .temp) (by decide)).append loadExtend).append
        (aluScratch _ (d := .temp) hs (fun h => by cases h) (by decide))).append
        (setFlags _)).append clearZ)).append
    (writeDest hdst size (s := .scratch .temp) (fun _ => scratch_readable (by decide))
      fun _ h => by cases h)
  simp only [List.append_assoc] at hall ⊢
  exact hall

theorem negate : Falls config inst u (Codegen.negate · inst) := by
  have hclocks := addressClocks_le inst.dst inst.size
  have hnegate : 0 < negateClocks inst ∧ negateClocks inst ≤ 32 := by
    unfold negateClocks
    split_ifs <;> omega
  unfold Codegen.negate
  refine falls (n := 32 + 24) (g := .loose) (q := .loose) ((charged hnegate).append ?_)
    (by decide)
  split
  · exact modify hdst inst.size fun g q s hs hw => (unary hs hw).append (setFlags _)
  · exact negateExtended hdst inst.size
  · exact modify hdst inst.size fun g q s hs hw => (unary hs hw).append (testFlags hs)

theorem clear : Falls config inst u (clear · inst) := by
  have hclocks := addressClocks_le inst.dst inst.size
  have hclear : 0 < clearClocks inst ∧ clearClocks inst ≤ 32 := by
    unfold clearClocks
    split_ifs <;> omega
  exact ((((charged hclear).append (locateDest _ _ _)).append (setFlags _)).append
    (writeDest hdst _ (s := .const 0) (fun _ => trivial) fun _ h => by cases h)).falls (by decide)

end

theorem test (hdst : inst.dst.isValue = true) : Falls config inst u (test · inst) := by
  have hclocks := addressClocks_le inst.dst inst.size
  simp only [Falls, Codegen.test, sourcePlace_eq]
  exact (((charged (by omega)).append (fetchSource _ hdst _)).append
    (testFlags (source_readable inst.dst inst.size inst.size))).falls (by decide)

theorem testAndSet (hdst : inst.dst.isImmediate = false) :
    Falls config inst u (testAndSet · inst) := by
  have hclocks := addressClocks_le inst.dst .byte
  refine (append (charged ?_) (modify hdst .byte fun g q s hs hw =>
    (testFlags hs).append (alu (s := .const 0x80) trivial hs hw))).falls (by decide)
  split_ifs <;> omega

theorem checkBounds (hsrc : inst.src.isValue = true) (hdst : inst.dst.isDataRegister = true) :
    Falls config inst u (checkBounds · inst) := by
  obtain ⟨reg, hreg⟩ := exists_data hdst
  have hclocks := addressClocks_le inst.src inst.size
  have hread (g : Grade) : (sourceSpot inst.src inst.size).Readable g inst.size :=
    source_readable inst.src inst.size inst.size
  have htrap (negative : Bool) : Built config inst u ⟨.loose, .paid, .intact⟩ 0
      (fun _ => Codegen.setFlag .n negative ++
        Codegen.raise ExceptionVector.chk inst.nextAddress) .stop :=
    (setFlag .n negative).append (raise _ _)
  have hcheck : Keeps config inst u ⟨.loose, .paid, .intact⟩ fun a => Fragment.trapped .less
      .greater (.alu .cmp ((sourceSpot inst.src inst.size).place a) ((Spot.data reg).place a) inst.size)
      _ _ :=
    trapped (fun _ _ => .alu (hread _) trivial fun hstores => absurd hstores (by decide))
      (fun _ => rfl) (htrap true) (htrap false)
  have hall := ((((charged (k := 10 + addressClocks inst.src inst.size) (by omega)).append (fetchSource inst.pcBase hsrc inst.size)).append
    (compare (o := .cmp) (s := .const 0) (d := .data reg) (z := inst.size) rfl trivial
      trivial)).append hcheck).falls (by decide)
  simp only [Fragment.trapped_eq, List.append_assoc] at hall
  simp only [Falls, Codegen.checkBounds, hreg, sourcePlace_eq, List.append_assoc]
  exact hall

theorem putFirst (n : Fin 16) :
    Built config inst u ⟨.tight, p, q⟩ 0
      (fun a => Codegen.mov (.reg scratch1) (a.place n.val) size) ⟨.tight, p, .loose⟩ :=
  (put (s := .scratch .first) n (fun _ => rfl) (.guest n)).anywhere

section Services

variable {reg : Fin 8} (hsrc : inst.src.isValue = true)
include hsrc

theorem factors :
    Built config inst u ⟨.loose, p, .intact⟩ 24
      (fun a => Codegen.charge (config.assign a) (addressClocks inst.src .word) ++
        Codegen.fetchSource (config.assign a) inst.pcBase inst.src .word ++
        Codegen.movzx (sourcePlace (config.assign a) inst.src .word) scratch1 .word .long ++
        Codegen.mov ((config.assign a).dataPlace reg) (.reg scratch2) .long)
      ⟨.tight, p, .intact⟩ := by
  simp only [sourcePlace_eq]
  exact (((charge _).mono (addressClocks_le inst.src .word)).append
    (fetchSource _ hsrc _)).append (movzxFirst (source_readable inst.src .word .word)) |>.append
    (copy (s := .data reg) (d := .second) trivial (by decide))

theorem multiply (hdst : inst.dst.isDataRegister = true) :
    Falls config inst u (multiply · inst) := by
  obtain ⟨reg, hreg⟩ := exists_data hdst
  have hservice : Built config inst u ⟨.tight, .blank, .intact⟩ 70
      (fun _ => Codegen.service (if inst.op = .mulu then .mulu else .muls))
      ⟨.tight, .paid, .intact⟩ := by
    split
    · exact service (s := .mulu) rfl (fun _ => rfl) fun _ => rfl
    · exact service (s := .muls) rfl (fun _ => rfl) fun _ => rfl
  simp only [Codegen.multiply, hreg]
  exact (((factors hsrc).append hservice).append (putFirst ⟨reg.val, by omega⟩)).falls (by decide)

theorem divide (hdst : inst.dst.isDataRegister = true) :
    Falls config inst u (divide · inst) := by
  obtain ⟨reg, hreg⟩ := exists_data hdst
  have hservice : Built config inst u ⟨.tight, .blank, .intact⟩ 156
      (fun _ => Codegen.service (if inst.op = .divu then .divu else .divs))
      ⟨.tight, .paid, .intact⟩ := by
    split
    · exact service (s := .divu) rfl (fun _ => rfl) fun _ => rfl
    · exact service (s := .divs) rfl (fun _ => rfl) fun _ => rfl
  simp only [Codegen.divide, hreg]
  exact ((((factors hsrc).append (load _ (d := .third) (by decide))).append hservice).append
    (putFirst ⟨reg.val, by omega⟩)).falls (by decide)

end Services

theorem decimalService (hs : s = .abcd ∨ s = .sbcd) :
    Keeps config inst u ⟨.tight, p, q⟩ fun _ => Codegen.service s := by
  rcases hs with rfl | rfl
  · exact service (s := .abcd) rfl (fun _ => rfl) fun _ => rfl
  · exact service (s := .sbcd) rfl (fun _ => rfl) fun _ => rfl

theorem decimalBack (hs : s = .abcd ∨ s = .sbcd) :
    Built config inst u ⟨.tight, p, q⟩ 8
      (fun _ => Codegen.service s ++ (Codegen.mov (.reg scratch4) (.reg scratch2) .long ++
        callWrite .byte false)) ⟨.tight, p, .loose⟩ :=
  (decimalService hs).append ((copy (s := .scratch .fourth) (d := .second)
    (scratch_readable (by decide)) (by decide)).append (.write false (.inl rfl)))

theorem decimalOn (hs : s = .abcd ∨ s = .sbcd) {source : Spot}
    (hsource : ∀ g, source.Readable g .long) {operand : Operand}
    (hdst : operand.isImmediate = false) :
    Built config inst u ⟨.loose, p, .intact⟩ 16
      (fun a => decimalOn s (source.place a) (destOf (config.assign a) operand .byte))
      ⟨.loose, p, .loose⟩ := by
  simp only [destOf_eq]
  cases hdest : destSpot? operand .byte with
  | some d =>
    obtain ⟨n, rfl⟩ := destSpot?_guest hdst hdest
    exact (((((copyFirst (hsource _)).append
      (copy (s := .guest n) (d := .second) trivial (by decide))).append
      (decimalService hs)).append
      (put (s := .scratch .first) n (fun _ => rfl) (.guest n)).anywhere).mono (by decide)).relax
  | none =>
    have hall : Built config inst u ⟨.loose, p, .intact⟩ 16 _ ⟨.tight, p, .loose⟩ :=
      ((((readMemory operand.isPreDec .byte).append (copy (s := .scratch .second) (z := .long)
      (d := .fourth) (scratch_readable (by decide)) (by decide))).append
      (copy (s := .scratch .first) (d := .second) (z := .long) (fun _ => rfl)
        (by decide))).append (copyFirst (hsource _)).strict).append (decimalBack hs)
    simp only [Codegen.decimalOn, List.append_assoc] at hall ⊢
    exact hall.relax

theorem decimalBinary (hsrc : inst.src.isValue = true) (hdst : inst.dst.isImmediate = false) :
    Falls config inst u (decimalBinary · inst) := by
  have hservice : (if inst.op = .abcd then Service.abcd else .sbcd) = .abcd ∨
      (if inst.op = .abcd then Service.abcd else .sbcd) = .sbcd := by
    split
    · exact .inl rfl
    · exact .inr rfl
  simp only [Falls, Codegen.decimalBinary, sourcePlace_eq]
  exact ((((charged (by decide)).append (fetchSource _ hsrc _)).append
    (locateDest _ _ _)).append (decimalOn hservice
      (fun _ => source_readable inst.src .byte .long) hdst)).falls (by decide)

theorem decimalNegate (hdst : inst.dst.isImmediate = false) :
    Falls config inst u (decimalNegate · inst) := by
  have hclocks := addressClocks_le inst.dst .byte
  simp only [Falls, Codegen.decimalNegate, destOf_eq]
  cases hdest : destSpot? inst.dst .byte with
  | some d =>
    obtain ⟨n, rfl⟩ := destSpot?_guest hdst hdest
    exact ((locateDest _ _ _).append (((((charged (by decide)).append
      (copyFirst (s := .guest n) trivial)).append (load 0 (d := .second) (by decide))).append
      (decimalService (.inr rfl))).append
      (put (s := .scratch .first) n (fun _ => rfl) (.guest n)).anywhere)).falls (by decide)
  | none =>
    have hall : Built config inst u _ 256 _ ⟨.loose, .paid, .loose⟩ := ((locateDest inst.pcBase inst.dst .byte).append
      (((((charged (k := 4 + addressClocks inst.dst .byte) (by omega)).append
      (readMemory inst.dst.isPreDec .byte)).append
      (copy (s := .scratch .second) (d := .fourth) (z := .long) (scratch_readable (by decide))
        (by decide))).append (load 0 (d := .second) (by decide))).append
      (decimalBack (.inr rfl)))).falls (by decide)
    simp only [List.append_assoc] at hall ⊢
    exact hall

theorem bitAt (number : Spot) (hnumber : ∀ g, number.Readable g .long)
    (hdst : inst.op = .btst ∨ inst.dst.isImmediate = false) :
    Built config inst u ⟨.loose, p, .intact⟩ 24
      (fun a => bitAt (config.assign a) inst (number.place a)) ⟨.loose, p, .loose⟩ := by
  have hall : Built config inst u ⟨.loose, p, .intact⟩ 8 _ ⟨.loose, p, .intact⟩ :=
    locateDest inst.pcBase inst.dst (bitSize inst.dst)
  by_cases htest : inst.op = .btst
  · have hbit : bitOp inst.op = .test := by rw [htest]; rfl
    have hall := hall.append (useDest (f := fun a value => Codegen.bit .test (number.place a) value
      (bitSize inst.dst) ++ Codegen.setTest .aboveEqual (flagPlace .z)) fun g s hs =>
      (bitTest (hnumber g) hs).append (testInto _ _))
    simp only [Codegen.bitAt, hbit, if_pos htest, List.append_nil]
    simp only [List.append_assoc] at hall ⊢
    exact hall.loosen.mono (by decide)
  · have himm := hdst.resolve_left htest
    simp only [Codegen.bitAt, if_neg htest, destOf_eq]
    cases hdest : destSpot? inst.dst (bitSize inst.dst) with
    | some d =>
      obtain ⟨n, rfl⟩ := destSpot?_guest himm hdest
      simp only [Dest.value, Codegen.writeDest, if_true]
      exact ((((hall.append nil).append (bit (d := .guest n) (hnumber _) trivial
        fun _ => .guest n).anywhere).append (testInto _ _)).append nil).mono (by decide)
    | none =>
      exact ((((hall.append (readMemory _ _)).append (bit (d := .scratch .first) (hnumber _)
        (fun _ => rfl) fun _ => .scratch (by decide))).append (testInto _ _)).append
        (.write _ (.inr rfl))).relax

theorem bitInstruction (hdst : inst.op = .btst ∨ inst.dst.isImmediate = false)
    (hapt : (inst.src.isDataRegister || inst.src.isImmediate) = true) :
    Falls config inst u (bitInstruction · inst) := by
  have hclocks := addressClocks_le inst.dst .byte
  have hbit : 0 < bitClocks inst ∧ bitClocks inst ≤ 12 := by
    unfold bitClocks
    split
    · split <;> decide
    · omega
  rcases Bool.or_eq_true_iff.mp hapt with hsrc | hsrc
  · obtain ⟨reg, hreg⟩ := exists_data hsrc
    simp only [Codegen.bitInstruction, hreg]
    exact ((charged ⟨hbit.1, by omega⟩).append (bitAt (.data reg) (fun _ => trivial) hdst)).falls (by decide)
  · obtain ⟨value, hvalue⟩ := exists_immediate hsrc
    have hstatic (number : UInt32) :
        0 < staticBitClocks inst number ∧ staticBitClocks inst number ≤ 32 := by
      unfold staticBitClocks
      split_ifs <;> omega
    simp only [Codegen.bitInstruction, hvalue]
    exact ((charged (hstatic _)).append
      (bitAt (.const _) (fun _ => trivial) hdst)).falls (by decide)

section Shifts

variable {s : Spot} {size : Size} (operation : Dynarec68k.Op) (flag : Flag)

theorem aslStep (hs : s.Readable g size) (hw : s.Storable u q size) :
    Keeps config inst u ⟨g, p, q⟩ fun a => aslStep (s.place a) size :=
  (((shiftBy hs hw).append (testInto _ .c)).append
    (setTest (d := .scratch .third) (.scratch (by decide)))).append
    (aluScratch _ (s := .scratch .third) (d := .fourth) (scratch_readable (by decide))
      (fun h => by cases h) (by decide))

theorem putFlag {d : Scratch} (hd : d ≠ .first) :
    Keeps config inst u ⟨g, p, q⟩ fun _ => Codegen.mov (.reg d.reg) (flagPlace flag) .byte :=
  mov (s := .scratch d) (d := .field (RegisterFile.flagOffset flag)) (scratch_readable hd)
    (.flag flag) fun h => by cases h

theorem copyFlag {d : Scratch} (hd : d ≠ .cycles ∧ d ≠ .first) :
    Keeps config inst u ⟨g, p, q⟩ fun _ => Codegen.movzx (flagPlace flag) d.reg .byte .long :=
  movzx (s := .field (RegisterFile.flagOffset flag)) (flag_readable flag) hd

theorem finishAsl (hs : s.Readable g size) :
    Keeps config inst u ⟨g, p, q⟩ fun a => finishAsl (s.place a) size :=
  ((((copyFlag .c (d := .third) (by decide)).append (putFlag .x (d := .third) (by decide))).append
    (compare (s := .const 0) rfl trivial hs)).append (setFlags _)).append
    (putFlag .v (d := .fourth) (by decide))

theorem shiftThrough {count : Count} (hcount : (∃ k, count = .imm k) ∨ count = .reg temp)
    (hs : s.Readable g size) (hw : s.Storable u q size) :
    Keeps config inst u ⟨g, p, q⟩ fun a => shiftThrough operation count (s.place a) size := by
  have hshift : Keeps config inst u ⟨g, p, q⟩ fun a => [.op (.shift (hostShift operation) count (s.place a) size)] := by
    rcases hcount with ⟨k, rfl⟩ | rfl
    · exact stored (fun _ _ => .shiftBy hs hw.writable) (fun _ => rfl) hw.spared
    · exact stored (fun _ _ => .shiftReg (k := .temp) (fun h => by cases h) hs hw.writable)
        (fun _ => rfl) hw.spared
  exact ((((ite (fun _ => loadExtend) fun _ => nil).append hshift).append (testInto _ .c)).append
    (ite (fun _ => nil) fun _ => testInto _ .x)).append (compareZero hs _)

theorem shiftStatic (count : Nat) (hs : s.Readable g size) (hw : s.Storable u q size) :
    Keeps config inst u ⟨g, p, q⟩ fun a => shiftStatic operation count (s.place a) size :=
  ite (fun _ => ((load 0 (d := .fourth) (by decide)).append
    (replicate count (aslStep hs hw))).append (finishAsl hs))
    fun _ => shiftThrough operation (.inl ⟨_, rfl⟩) hs hw

theorem shiftByZero (hs : s.Readable g size) :
    Keeps config inst u ⟨g, p, q⟩ fun a => shiftByZero operation (s.place a) size :=
  (ite (fun _ => (copyFlag .x (d := .fourth) (by decide)).append
    (putFlag .c (d := .fourth) (by decide))) fun _ => setFlag .c false).append (compareZero hs _)

theorem shiftCounted (hs : s.Readable g size) (hw : s.Storable u q size)
    (htemp : s ≠ .scratch .temp) :
    Keeps config inst u ⟨g, p, q⟩ fun a => shiftCounted operation (s.place a) size :=
  ite (fun _ => ((load 0 (d := .fourth) (by decide)).append
    (.counted htemp (aslStep hs hw))).append (finishAsl hs))
    fun _ => shiftThrough operation (.inr rfl) hs hw

end Shifts

theorem shiftInstruction (hcount : inst.src.isCount = true) (hapt : inst.isShift = true) :
    Falls config inst u (shiftInstruction · inst) := by
  have hbase : 0 < (if inst.size = .long then 8 else 6) ∧
      (if inst.size = .long then 8 else 6) ≤ 8 := by
    split <;> decide
  unfold Codegen.shiftInstruction
  simp only
  split
  · rename_i reg count _ hsrc
    rw [hsrc, isCount, Bool.and_eq_true, decide_eq_true_iff] at hcount
    have hsmall : count.toNat ≤ 8 := UInt32.le_iff_toNat_le.mp hcount.2
    exact ((charged (by omega)).append
      (shiftStatic (s := .data reg) inst.op _ trivial (.guest _)).anywhere).falls (by decide)
  · rename_i reg count _ _
    have hread (size : Size) : (Spot.data reg).Readable .loose size := trivial
    have hall : Built config inst u _ 256 _ ⟨.loose, .paid, .loose⟩ := ((charged ⟨hbase.1, by omega⟩).append (append (.count count)
        (choose (t := .notEqual) (shiftByZero (s := .data reg) inst.op (hread inst.size)).loosen
          (shiftCounted (s := .data reg) inst.op (hread inst.size) (.guest _)
            fun h => by cases h).anywhere))).falls (by decide)
    simp only [Fragment.choice, shiftDynamic, List.append_assoc] at hall ⊢
    exact hall
  · rename_i dst src hstatic hdynamic
    have hmemory : inst.dst.isMemory = true := by
      rcases Bool.or_eq_true_iff.mp hapt with hmemory | hregisters
      · exact hmemory
      · obtain ⟨hdst, hsrc⟩ := Bool.and_eq_true_iff.mp hregisters
        obtain ⟨reg, hreg⟩ := exists_data hdst
        rcases Bool.or_eq_true_iff.mp hsrc with hdata | himmediate
        · obtain ⟨count, hdata⟩ := exists_data hdata
          exact (hdynamic reg count hreg hdata).elim
        · obtain ⟨count, himmediate⟩ := exists_immediate himmediate
          exact (hstatic reg count hreg himmediate).elim
    have himm := isImmediate_of_isPlace (isPlace_of_isMemory hmemory)
    have hclocks := addressClocks_le inst.dst .word
    simp only [if_pos hmemory]
    exact ((charged (by omega)).append
      (modify himm .word fun g q s hs hw => shiftStatic inst.op 1 hs hw)).falls (by decide)

theorem onCondition (condition : Condition) (h : Built config inst u ⟨g, p, q⟩ n f .stop) :
    Built config inst u ⟨g, p, q⟩ n (fun a => onCondition condition (f a)) ⟨g, p, q⟩ :=
  ((evaluate condition).append (.skipIf h.ended)).mono (by omega)

section Branches

variable (htarget : inst.knownTarget? = some (branchTarget inst))
include htarget

theorem taken :
    Built config inst u ⟨.loose, p, q⟩ 32 (fun a => Codegen.charge (config.assign a) 10 ++
      Codegen.jumpTo inst.address (branchTarget inst)) .stop :=
  (charged (by decide)).append (.jumpTo htarget)

theorem branch : Falls config inst u (branch · inst) := by
  unfold Codegen.branch
  simp only
  split
  · exact (taken htarget).ended.mono (by decide)
  · refine ((onCondition _ (taken htarget)).append (charged ?_)).falls (by decide)
    split <;> decide

theorem branch_always (halways : inst.condition? = some .always) :
    Leaves config inst u (Codegen.branch · inst) := by
  simp only [Codegen.branch, halways, Option.getD_some]
  exact (taken htarget).mono (by decide)

omit htarget in
theorem pushReturn :
    Built config inst u ⟨.loose, p, .intact⟩ 8 (fun a => pushReturn (config.assign a) inst)
      ⟨.loose, p, .loose⟩ :=
  ((loadFirst _).append pushLong).relax

theorem branchSubroutine : Falls config inst u (branchSubroutine · inst) :=
  (((charged (by decide)).append pushReturn).append (.jumpTo htarget)).ended.mono
    (by decide)

theorem countDown (reg : Fin 8) :
    Built config inst u ⟨.loose, p, .loose⟩ 64 (fun a => countDown (config.assign a) inst reg)
      ⟨.loose, .paid, .loose⟩ :=
  ((alu (s := .const 1) (d := .data reg) trivial trivial (.guest _)).append
    (.skipIf (taken htarget).ended)).append (charged (by decide))

theorem decrementBranch (hdst : inst.dst.isDataRegister = true) :
    Falls config inst u (decrementBranch · inst) := by
  obtain ⟨reg, hreg⟩ := exists_data hdst
  have hheld : Built config inst u ⟨.loose, .blank, .loose⟩ 64
      (fun a => Codegen.charge (config.assign a) 12) ⟨.loose, .paid, .loose⟩ :=
    (charged (by decide)).mono (by decide)
  simp only [Codegen.decrementBranch, hreg]
  split
  · exact hheld.anywhere.falls (by decide)
  · exact (countDown htarget reg).anywhere.falls (by decide)
  · have hall := ((evaluate (inst.condition?.getD .never)).append (choose
      (t := conditionTest (inst.condition?.getD .never)) (countDown htarget reg) hheld)).anywhere
      |>.falls (by decide)
    simp only [Fragment.choice, List.append_assoc] at hall ⊢
    exact hall

end Branches

theorem setCondition (hdst : inst.dst.isImmediate = false)
    (hextra : inst.extra.isCondition = true) :
    Falls config inst u (setCondition · inst) := by
  obtain ⟨condition, hcondition⟩ := exists_condition hextra
  have hclocks := addressClocks_le inst.dst .byte
  simp only [Codegen.setCondition, hcondition]
  refine (((((append (append (charged ?_) (locateDest _ _ _)) (evaluate condition)).append
    (ite (fun _ => nil.mono (by decide)) fun _ => .skipIf (.charge 2))).append
    (setTest (d := .scratch .temp) (.scratch (by decide)))).append
    (unary (d := .scratch .temp) (scratch_readable (by decide)) (.scratch (by decide)))).append
    (writeDest hdst .byte (s := .scratch .temp) (fun _ => scratch_readable (by decide))
      fun _ h => by cases h)).falls (by decide)
  split <;> omega

theorem jumpClocks_bounds : 0 < jumpClocks operand ∧ jumpClocks operand ≤ 32 := by
  have hclocks := addressClocks_le operand .long
  unfold jumpClocks
  split <;> first | decide | omega

theorem jump (hop : inst.op = .jmp) (hsrc : inst.src.isMemory = true) :
    Leaves config inst u (jump · inst) := by
  unfold Codegen.jump
  refine mono (n := 32 + 8) ((charged (jumpClocks_bounds _)).append ?_) (by decide)
  split
  · rename_i target htarget
    exact mono (.jumpTo (by rw [knownTarget?, hop]; exact htarget)) (by decide)
  · exact (addressFirst _ hsrc _).append .computed

theorem jumpSubroutine (hop : inst.op = .jsr) :
    Falls config inst u (jumpSubroutine · inst) := by
  unfold Codegen.jumpSubroutine
  refine mono (n := 32 + 16) ((charged (jumpClocks_bounds _)).append ?_) (by decide)
  split
  · rename_i target htarget
    exact (pushReturn.append (.jumpTo (by rw [knownTarget?, hop]; exact
      htarget))).ended.mono (by decide)
  · exact ((((addressInto _ _ _ (d := .third) (by decide)).append pushReturn).append
      (copyFirst (s := .scratch .third) (scratch_readable (by decide)))).append .computed).ended

theorem returnSubroutine : Leaves config inst u returnSubroutine :=
  (((charged (by decide)).append popLong).append .computed).mono (by decide)

theorem returnRestore : Leaves config inst u returnRestore :=
  (((((((charged (by decide)).append (copyFirst (s := .addr 7) trivial)).append
    (aluAddr _ _ 7)).append (.read (.inr rfl))).append ccrFrom).append popLong.strict).append
    .computed).mono (by decide)

theorem returnDeallocate : Leaves config inst u (returnDeallocate · inst) :=
  ((((charged (by decide)).append popLong).append (aluAddr _ _ 7)).append
    .computed).mono (by decide)

theorem statusSource (hsrc : inst.src.isValue = true) :
    Built config inst u ⟨.loose, p, .intact⟩ 48 (fun a => statusSource (config.assign a) inst)
      ⟨.tight, .paid, .intact⟩ := by
  have hclocks := addressClocks_le inst.src .word
  simp only [Codegen.statusSource, sourcePlace_eq]
  exact ((charged (by omega)).append (fetchSource _ hsrc _)).append
    (movzxFirst (source_readable inst.src .word .word))

theorem moveToSr (hsrc : inst.src.isValue = true) :
    Falls config inst u (moveToSr · inst) := by
  simp only [Codegen.moveToSr, List.append_assoc]
  exact (privileged ((statusSource hsrc).append
    (.service (s := .setSr) rfl (fun _ => rfl) fun h => by cases h))).falls (by decide)

theorem moveToCcr (hsrc : inst.src.isValue = true) :
    Falls config inst u (moveToCcr · inst) :=
  ((statusSource hsrc).append ccrFrom).falls (by decide)

theorem moveFromStatus (hdst : inst.dst.isImmediate = false) :
    Falls config inst u (moveFromStatus · inst) := by
  have hclocks := addressClocks_le inst.dst .word
  have hcode (u : Bool) : Falls config inst u fun c => Codegen.charge c
      (if inst.dst.isMemory then 8 + addressClocks inst.dst .word else 6) ++
      Codegen.locateDest c inst.pcBase inst.dst .word ++
      (if inst.op = .moveFromSr then Codegen.srInto scratch1
        else Codegen.ccrInto scratch1) ++
      Codegen.writeDest (destOf c inst.dst .word) (.reg scratch1) .word := by
    refine (((append (charged ?_) (locateDest _ _ _)).append
      (ite (fun _ => srInto) fun _ => ccrInto)).append (writeFirst hdst .word)).falls (by decide)
    split <;> omega
  simp only [Falls, List.append_assoc] at hcode
  by_cases hwhole : inst.op = .moveFromSr ∧ config.model ≠ .m68000
  · have hguard (a : RegisterAssignment) :
        (if inst.op = .moveFromSr ∧ (config.assign a).model ≠ .m68000 then
          Codegen.requireSupervisor inst else []) = Codegen.requireSupervisor inst := if_pos hwhole
    simp only [Falls, Codegen.moveFromStatus, hguard, List.append_assoc]
    exact privileged (hcode false)
  · have hguard (a : RegisterAssignment) :
        (if inst.op = .moveFromSr ∧ (config.assign a).model ≠ .m68000 then
          Codegen.requireSupervisor inst else []) = [] := if_neg hwhole
    simp only [Falls, Codegen.moveFromStatus, hguard, List.nil_append, List.append_assoc]
    exact hcode u

theorem moveUsp : Falls config inst u (moveUsp · inst) := by
  have hstack : (Spot.field (RegisterFile.generalOffset 16)).Storable false .intact .long :=
    ⟨⟨⟨by decide, by decide⟩, fun h => by cases h⟩, ⟨by decide, by decide⟩⟩
  unfold Codegen.moveUsp
  simp only [List.append_assoc]
  refine falls (n := 32 + 0) (g := .loose) (q := .intact) (privileged (append (charged (k := 4) (by decide)) ?_)) (by decide)
  split
  · rename_i reg _ _
    exact mov (s := .addr reg) (d := .field (RegisterFile.generalOffset 16)) trivial hstack
      fun h => by cases h
  · rename_i reg _ _
    exact put (s := .field (RegisterFile.generalOffset 16)) ⟨8 + reg.val, by omega⟩
      hstack.writable.readable (.addr reg)
  · exact nil

theorem logicCcr : Falls config inst u (logicCcr · inst) :=
  ((((charged (by decide)).append ccrInto).append
    (aluScratch _ (s := .const _) (d := .first) trivial (fun _ => rfl) (by decide))).append
    ccrFrom).falls (by decide)

theorem logicSr : Falls config inst u (Codegen.logicSr · inst) := by
  simp only [Codegen.logicSr, List.append_assoc]
  exact (privileged ((charged (by decide)).append (srInto.append
    ((aluScratch _ (s := .const _) (d := .first) trivial (fun _ => rfl) (by decide)).append
      (.service (s := .setSr) rfl (fun _ => rfl) fun h => by cases h))))).falls (by decide)

theorem returnException : Leaves config inst u (Codegen.returnException · inst) := by
  simp only [Codegen.returnException, List.append_assoc]
  exact (privileged ((charged (by decide)).append (.leave rfl (fun h => by cases h)
    (fun h => by cases h) (.inr rfl) (by decide)))).mono (by decide)

theorem trapOverflow : Falls config inst u (trapOverflow · inst) :=
  (((charged (by decide)).append (compareFlag .v)).append
    (.skipIf (raise _ _).ended)).falls (by decide)

theorem trapCondition (hextra : inst.extra.isCondition = true) :
    Falls config inst u (trapCondition · inst) := by
  obtain ⟨condition, hcondition⟩ := exists_condition hextra
  simp only [Codegen.trapCondition, hcondition]
  exact ((charged (by decide)).append (onCondition condition (raise _ _))).falls (by decide)

theorem stop : Leaves config inst u (Codegen.stop · inst) := by
  simp only [Codegen.stop, List.append_assoc]
  exact (privileged ((charged (by decide)).append ((loadFirst _).append
    ((load _ (d := .second) (by decide)).append (.leave rfl (fun _ => rfl) (fun h => by cases h)
      (.inr rfl) (by decide)))))).mono (by decide)

theorem reset : Falls config inst u (Codegen.reset · inst) := by
  simp only [Codegen.reset, List.append_assoc]
  exact (privileged ((pay (n := 132) (by decide) (by decide) (by decide)).append
    (.service rfl (fun h => by cases h) fun _ => rfl))).falls (by decide)

theorem body_terminal (hshaped : inst.shaped = true) (hterminal : inst.isTerminal = true) :
    Leaves config inst u inst.body := by
  have hraise (vector : Nat) (pc : UInt32) :
      Leaves config inst u fun _ => Codegen.raise vector pc := (raise vector pc).mono (by decide)
  unfold Form.shaped at hshaped
  unfold isTerminal at hterminal
  unfold body
  cases hop : inst.op <;> rw [hop] at hshaped hterminal <;> simp only at hshaped hterminal ⊢
  case bcc =>
    exact branch_always (by rw [knownTarget?, hop]) (beq_iff_eq.mp hterminal)
  case rts => exact returnSubroutine
  case rte => exact returnException
  case rtr => exact returnRestore
  case rtd => exact returnDeallocate
  case jmp => exact jump hop hshaped
  case trap | illegal | invalid | lineA | lineF => exact hraise _ _
  case stop => exact stop
  all_goals exact absurd hterminal (by decide)

theorem body (hshaped : inst.shaped = true) (hapt : inst.op = .invalid ∨ inst.apt = true) :
    Falls config inst u inst.body := by
  cases hterminal : inst.isTerminal with
  | true => exact (body_terminal hshaped hterminal).ended
  | false =>
    have hraise (vector : Nat) (pc : UInt32) :
        Falls config inst u fun _ => Codegen.raise vector pc :=
      (raise vector pc).ended.mono (by decide)
    have happly : inst.apt = true := by
      rcases hapt with hinvalid | happly
      · rw [isTerminal, hinvalid] at hterminal
        cases hterminal
      · exact happly
    have hone (h : inst.dst.isPlace = true) : inst.dst.isImmediate = false :=
      isImmediate_of_isPlace h
    have hboth (h : (inst.src.isValue && inst.dst.isPlace) = true) :
        inst.src.isValue = true ∧ inst.dst.isImmediate = false :=
      (Bool.and_eq_true_iff.mp h).imp_right hone
    have hshift : inst.src.isCount = true → inst.isShift = true →
        Falls config inst u (Codegen.shiftInstruction · inst) := shiftInstruction
    unfold Form.shaped at hshaped
    unfold Form.apt at happly
    unfold Instruction.body
    cases hop : inst.op <;> rw [hop] at hshaped happly <;> simp only at hshaped happly ⊢
    case move => exact moveData (hboth hshaped).1 (hboth hshaped).2 happly
    case add | sub | and | or | eor => exact binary (hboth hshaped).1 (hboth hshaped).2
    case cmp => exact compareInstruction (Bool.and_eq_true_iff.mp hshaped).1
    case addx | subx => exact extendedBinary (hboth hshaped).2 (hboth hshaped).1
    case neg | negx | not => exact negate (hone hshaped)
    case clr => exact clear (hone hshaped)
    case tst => exact test hshaped
    case ext | extb => exact extendSign happly
    case swap => exact swapHalves happly
    case exg => exact exchange
    case mulu | muls => exact multiply hshaped happly
    case divu | divs => exact divide hshaped happly
    case abcd | sbcd => exact decimalBinary (hboth hshaped).1 (hboth hshaped).2
    case nbcd => exact decimalNegate (hone hshaped)
    case chk => exact checkBounds hshaped happly
    case tas => exact testAndSet (hone hshaped)
    case asl | asr | lsl | lsr | rol | ror | roxl | roxr => exact hshift hshaped happly
    case btst => exact bitInstruction (.inl hop) happly
    case bchg | bclr | bset => exact bitInstruction (.inr (hone hshaped)) happly
    case bcc => exact branch (by rw [knownTarget?, hop])
    case bsr => exact branchSubroutine (by rw [knownTarget?, hop])
    case dbcc => exact decrementBranch (by rw [knownTarget?, hop]) happly
    case scc => exact setCondition (hone hshaped) happly
    case jsr => exact jumpSubroutine hop
    case lea => exact loadAddress hshaped happly
    case pea => exact pushAddress hshaped
    case link => exact enterFrame happly
    case unlk => exact leaveFrame happly
    case movem =>
      exact moveMultiple (inst.size_ne_byte (bne_iff_ne.mp
        (Bool.and_eq_true_iff.mp hshaped).2)) happly
    case movep => exact movePeripheral happly
    case moveSr => exact moveToSr hshaped
    case moveCcr => exact moveToCcr hshaped
    case moveFromSr | moveFromCcr => exact moveFromStatus (hone hshaped)
    case moveUsp => exact moveUsp
    case andiCcr | oriCcr | eoriCcr => exact logicCcr
    case andiSr | oriSr | eoriSr => exact logicSr
    case trapv => exact trapOverflow
    case trapcc => exact trapCondition happly
    case reset => exact reset
    case nop => exact (charged (by decide)).falls (by decide)
    case rts | rte | rtr | rtd | jmp | stop =>
        rw [isTerminal, hop] at hterminal
        cases hterminal
    all_goals exact hraise _ _

end Built

end Dynarec68k
