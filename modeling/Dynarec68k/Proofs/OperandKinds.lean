import Dynarec68k.Isa.Decode

namespace Dynarec68k

namespace Operand

/-- Operands that have a value: registers, memory and immediates. -/
def isValue (operand : Operand) : Bool :=
  operand.isMemory || operand.isRegister || operand.isImmediate

/-- Operands that keep a value: registers and memory. -/
def isPlace (operand : Operand) : Bool :=
  operand.isMemory || operand.isRegister

/-- A shift by a number known beforehand is by one to eight places. -/
def isCount : Operand → Bool
  | .immediate count => count.toNat.toUInt8 != 0 && decide (count ≤ 8)
  | _ => true

def isRegList : Operand → Bool
  | .regList _ => true
  | _ => false

def isDisplaced : Operand → Bool
  | .displaced _ _ => true
  | _ => false

def isBriefIndexed : Operand → Bool
  | .indexed _ _ _ | .pcIndexed _ _ => true
  | _ => false

/-- Full extension words and scaled indices. -/
def isExtended : Operand → Bool
  | .full _ _ | .pcFull _ => true
  | .indexed _ index _ | .pcIndexed index _ => index.scale != 1
  | _ => false

/-- The model has the addressing of the operand. -/
def Fits (model : Model) (operand : Operand) : Prop :=
  operand.isExtended = true → model.is68020 = true

theorem Fits.plain {model : Model} {operand : Operand} (h : operand.isExtended = false) :
    operand.Fits model := by
  intro hextended
  exact absurd (h.symm.trans hextended) Bool.false_ne_true

section

variable {operand : Operand}

theorem isImmediate_of_isPlace (h : operand.isPlace = true) : operand.isImmediate = false := by
  cases operand <;> first | rfl | exact absurd h (by simp [isPlace, isMemory, isRegister])

theorem isPlace_of_isMemory (h : operand.isMemory = true) : operand.isPlace = true := by
  rw [isPlace, h, Bool.true_or]

theorem isPlace_of_isAlterable (h : operand.isAlterable = true) : operand.isPlace = true := by
  rw [isAlterable, Bool.or_eq_true, Bool.and_eq_true] at h
  rcases h with hregister | ⟨hmemory, -⟩
  · rw [isPlace, hregister, Bool.or_true]
  · exact isPlace_of_isMemory hmemory

theorem isPlace_of_isDataAlterable (h : operand.isDataAlterable = true) :
    operand.isPlace = true := by
  rw [isDataAlterable, Bool.and_eq_true] at h
  exact isPlace_of_isAlterable h.1

theorem isMemory_of_isMemoryAlterable (h : operand.isMemoryAlterable = true) :
    operand.isMemory = true := by
  rw [isMemoryAlterable, Bool.and_eq_true] at h
  exact h.1

theorem isMemory_of_isControl (h : operand.isControl = true) : operand.isMemory = true := by
  rw [isControl, Bool.and_eq_true] at h
  exact h.1

theorem isMemory_of_isPreDec (h : operand.isPreDec = true) : operand.isMemory = true := by
  cases operand <;> first | rfl | exact absurd h (by simp [isPreDec])

theorem isMemory_of_isPostInc (h : operand.isPostInc = true) : operand.isMemory = true := by
  cases operand <;> first | rfl | exact absurd h (by simp [isPostInc])

theorem isRegister_of_isMemory (h : operand.isMemory = true) :
    operand.isDataRegister = false ∧ operand.isAddressRegister = false := by
  cases operand <;> first | exact ⟨rfl, rfl⟩ | exact absurd h (by simp [isMemory])

theorem isValue_of_modeReg {fields : Fin 8 × Fin 8} (h : operand.modeReg = some fields) :
    operand.isValue = true := by
  cases operand <;> first | rfl | cases h

theorem isRegister_eq (operand : Operand) :
    operand.isRegister = (operand.isDataRegister || operand.isAddressRegister) := by
  cases operand <;> rfl

theorem general_isMemory (reg : Fin 16) : (general reg).isMemory = false := by
  unfold general
  split <;> rfl

theorem general_isExtended (reg : Fin 16) : (general reg).isExtended = false := by
  unfold general
  split <;> rfl

end

/-- Two operands are allowed in the same places. -/
structure Alike (o o' : Operand) : Prop where
  memory : o.isMemory = o'.isMemory
  register : o.isRegister = o'.isRegister
  dataRegister : o.isDataRegister = o'.isDataRegister
  addressRegister : o.isAddressRegister = o'.isAddressRegister
  immediate : o.isImmediate = o'.isImmediate
  preDec : o.isPreDec = o'.isPreDec
  postInc : o.isPostInc = o'.isPostInc
  pcRelative : o.isPcRelative = o'.isPcRelative

/-- An operand for each mode and register field, with nothing in its extension words. -/
def plain (mode reg : Fin 8) : Operand :=
  match mode with
  | 0 => .data reg
  | 1 => .addr reg
  | 2 => .indirect reg
  | 3 => .postInc reg
  | 4 => .preDec reg
  | 5 => .displaced reg 0
  | 6 => .indexed reg ⟨0, false, 0⟩ 0
  | 7 =>
    match reg with
    | 0 => .absShort 0
    | 1 => .absLong 0
    | 2 => .pcDisplaced 0
    | 3 => .pcIndexed ⟨0, false, 0⟩ 0
    | _ => .immediate 0

theorem alike_plain {o : Operand} {mode reg : Fin 8} (h : o.modeReg = some (mode, reg)) :
    o.Alike (plain mode reg) := by
  cases o with
  | none | displacement | regList | regPair | ccr | sr | usp | control | bitField => cases h
  | _ =>
    cases h
    exact ⟨rfl, rfl, rfl, rfl, rfl, rfl, rfl, rfl⟩

namespace Alike

variable {o o' : Operand} (h : o.Alike o')
include h

theorem data : o.isData = o'.isData := by
  rw [isData, isData, h.memory, h.dataRegister, h.immediate]

theorem control : o.isControl = o'.isControl := by
  rw [isControl, isControl, h.memory, h.postInc, h.preDec]

theorem alterable : o.isAlterable = o'.isAlterable := by
  rw [isAlterable, isAlterable, h.register, h.memory, h.pcRelative]

theorem dataAlterable : o.isDataAlterable = o'.isDataAlterable := by
  rw [isDataAlterable, isDataAlterable, h.alterable, h.addressRegister]

theorem memoryAlterable : o.isMemoryAlterable = o'.isMemoryAlterable := by
  rw [isMemoryAlterable, isMemoryAlterable, h.memory, h.pcRelative]

end Alike

end Operand

def Extra.isCondition : Extra → Bool
  | .cond _ => true
  | _ => false

namespace Op

/-- Operations that came with the second model. -/
def isLoopMode : Op → Bool
  | .rtd | .bkpt | .movec | .moves | .moveFromCcr => true
  | _ => false

/-- Operations that came with the last model. -/
def isWide : Op → Bool
  | .extb | .trapcc | .mulLong | .divLong | .bitField _ | .cas | .chk2 | .pack | .unpk => true
  | _ => false

/-- Operations that every model has in all sizes. -/
def isEarly (op : Op) : Bool :=
  !op.isLoopMode && !op.isWide && op != .link && op != .chk

end Op

theorem Model.is68010OrLater_of_is68020 {model : Model} (h : model.is68020 = true) :
    model.is68010OrLater = true := by
  cases model <;> trivial

theorem Model.longBranches_eq (model : Model) :
    model.capabilities.longBranches = model.is68020 := by
  cases model <;> rfl

theorem Model.wideOps_eq (model : Model) : model.capabilities.wideOps = model.is68020 := by
  cases model <;> rfl

namespace Form

/-- The operands of an instruction can be used as its operation uses them. -/
def shaped (form : Form) : Bool :=
  match form.op with
  | .move | .add | .sub | .and | .or | .eor | .addx | .subx | .abcd | .sbcd =>
    form.src.isValue && form.dst.isPlace
  | .cmp => form.src.isValue && form.dst.isValue
  | .mulu | .muls | .divu | .divs | .chk | .moveSr | .moveCcr => form.src.isValue
  | .neg | .negx | .not | .clr | .nbcd | .tas | .scc | .moveFromSr | .moveFromCcr | .bchg | .bclr
  | .bset => form.dst.isPlace
  | .tst | .btst => form.dst.isValue
  | .jmp | .jsr | .lea | .pea => form.src.isMemory
  | .asl | .asr | .lsl | .lsr | .rol | .ror | .roxl | .roxr => form.src.isCount
  | .movem => (form.src.isMemory || form.dst.isMemory) && form.extra != .size .byte
  | _ => true

/-- Shifts of a data register by a register or a number, and of memory. -/
def isShift (form : Form) : Bool :=
  form.dst.isMemory ||
    (form.dst.isDataRegister && (form.src.isDataRegister || form.src.isImmediate))

/-- The operands are of the kinds that the code of the operation is made for. The operation that
stands for no instruction has none. -/
def apt (form : Form) : Bool :=
  match form.op with
  | .invalid => false
  | .chk | .mulu | .muls | .divu | .divs | .swap | .ext | .extb | .dbcc => form.dst.isDataRegister
  | .lea => form.dst.isAddressRegister
  | .link | .unlk => form.src.isAddressRegister
  | .btst | .bchg | .bclr | .bset => form.src.isDataRegister || form.src.isImmediate
  | .asl | .asr | .lsl | .lsr | .rol | .ror | .roxl | .roxr => form.isShift
  | .scc | .trapcc => form.extra.isCondition
  | .move => form.variant != .quick || (form.src.isImmediate && form.dst.isDataRegister)
  | .movem => form.src.isRegList || form.dst.isRegList
  | .movep =>
    (form.src.isDataRegister && form.dst.isDisplaced) ||
      (form.src.isDisplaced && form.dst.isDataRegister)
  | _ => true

theorem op_ne_invalid {form : Form} (h : form.apt = true) : form.op ≠ .invalid := by
  intro hop
  rw [apt, hop] at h
  cases h

/-- Operations of the last model, the long forms of LINK and CHK, and long branches. -/
def isWide (form : Form) : Bool :=
  form.op.isWide || ((form.op == .link || form.op == .chk) && form.extra == .size .long)
    || form.variant == .long

def needs68010 (form : Form) : Bool :=
  form.op.isLoopMode

def needs68020 (form : Form) : Bool :=
  form.isWide || form.src.isExtended || form.dst.isExtended

/-- The model has all that the form needs. -/
structure Fits (model : Model) (form : Form) : Prop where
  loopMode : form.needs68010 = true → model.is68010OrLater = true
  wide : form.needs68020 = true → model.is68020 = true

variable {model : Model} {form : Form}

theorem Fits.of_68020 (h : model.is68020 = true) (form : Form) : form.Fits model where
  loopMode _ := Model.is68010OrLater_of_is68020 h
  wide _ := h

theorem Fits.of_operands (hop : form.needs68010 = true → model.is68010OrLater = true)
    (hwide : form.isWide = false) (hsrc : form.src.Fits model) (hdst : form.dst.Fits model) :
    form.Fits model where
  loopMode := hop
  wide h := by
    rw [needs68020, hwide, Bool.false_or, Bool.or_eq_true] at h
    exact h.elim hsrc hdst

theorem Fits.early {op : Op} (hop : op.isEarly = true) {variant : Variant}
    (hvariant : variant ≠ .long) (extra : Extra) {src dst : Operand} (hsrc : src.Fits model)
    (hdst : dst.Fits model) : (Form.mk op variant extra src dst).Fits model := by
  simp only [Op.isEarly, Bool.and_eq_true, Bool.not_eq_true', bne_iff_ne] at hop
  obtain ⟨⟨⟨hloop, hwide⟩, hlink⟩, hchk⟩ := hop
  refine .of_operands (fun h => absurd (hloop.symm.trans h) Bool.false_ne_true) ?_ hsrc hdst
  simp [isWide, hwide, hlink, hchk, hvariant]

end Form

end Dynarec68k
