import Dynarec68k.Isa.Decode.Address

namespace Dynarec68k.Decode

open WordReader Word

variable (model : Model) (w : UInt16)

def addressAndBounds : WordReader Form :=
  match field3 w 6 with
  | 7 =>
    if mode w = 0 ∧ upperReg w = 4 then do
      requireModel model.capabilities.longBranches w
      return .sized .extb .long .none (.data (lowerReg w))
    else do
      let src ← operandOf model w .long
      require src.isControl src
      return .sized .lea .long src (.addr (upperReg w))
  | 6 => do
    let src ← operandOf model w .word
    require src.isData src
    return .sized .chk .word src (.data (upperReg w))
  | 4 => do
    requireModel model.capabilities.longBranches w
    let src ← operandOf model w .long
    require src.isData src
    return .sized .chk .long src (.data (upperReg w))
  | _ => .fail (.unrecognized w)

def jumpTo (op : Op) : WordReader Form := do
  let target ← operandOf model w .long
  require target.isControl target
  return .unsized op target .none

def moveFromStatus (op : Op) (src : Operand) : WordReader Form := do
  let dst ← operandOf model w .word
  require dst.isDataAlterable dst
  return .sized op .word src dst

def moveToStatus (op : Op) (dst : Operand) : WordReader Form := do
  let src ← operandOf model w .word
  require src.isData src
  return .sized op .word src dst

def negateDecimal : WordReader Form :=
  if mode w = 1 then do
    requireModel model.capabilities.longBranches w
    return .sized .link .long (.addr (lowerReg w)) (.immediate (← nextLong))
  else do
    let dst ← operandOf model w .byte
    require dst.isDataAlterable dst
    return .sized .nbcd .byte .none dst

def swapOrPush : WordReader Form :=
  if mode w = 0 then .done (.sized .swap .long .none (.data (lowerReg w)))
  else if mode w = 1 && model.is68010OrLater then
    .done (.unsized .bkpt (.immediate (lowerReg w).val.toUInt32) .none)
  else do
    let src ← operandOf model w .long
    require src.isControl src
    return .sized .pea .long src .none

def storeMultiple (size : Size) : WordReader Form :=
  if mode w = 0 then .done (.sized .ext size .none (.data (lowerReg w)))
  else do
    let mask ← next
    let dst ← operandOf model w size
    require ((dst.isControl && dst.isAlterable) || dst.isPreDec) dst
    return .sized .movem size (.regList mask) dst

def loadMultiple (size : Size) : WordReader Form := do
  let mask ← next
  let src ← operandOf model w size
  require (src.isControl || src.isPostInc) src
  return .sized .movem size src (.regList mask)

def testAndSet : WordReader Form := do
  let dst ← operandOf model w .byte
  require dst.isDataAlterable dst
  return .sized .tas .byte .none dst

def longArithmetic (op : Op) : WordReader Form := do
  requireModel model.capabilities.wideOps w
  let ext ← next
  let src ← operandOf model w .long
  require src.isData src
  return .sized op .long src (.regPair (field3 ext 12) (field3 ext 0))

def unaryOp (field : Fin 8) : Option Op :=
  match field with
  | 0 => some .negx
  | 1 => some .clr
  | 2 => some .neg
  | 3 => some .not
  | 5 => some .tst
  | _ => none

/-- NEGX, CLR, NEG, NOT and TST. The last model tests every operand but a byte of An. -/
def unaryArithmetic : WordReader Form := do
  let size ← sizeOr (Size.ofBits (field2 w 6)) w
  match unaryOp (upperReg w) with
  | none => .fail (.unrecognized w)
  | some op =>
    let dst ← operandOf model w size
    require
      (if op = .tst && model.is68020 then !(size = .byte && dst.isAddressRegister)
        else dst.isDataAlterable)
      dst
    return .sized op size .none dst

def operandForms : WordReader Form :=
  match (w &&& 0xFFC0).toNat with
  | 0x4E80 => jumpTo model w .jsr
  | 0x4EC0 => jumpTo model w .jmp
  | 0x40C0 => moveFromStatus model w .moveFromSr .sr
  | 0x42C0 => do
    requireModel model.is68010OrLater w
    moveFromStatus model w .moveFromCcr .ccr
  | 0x44C0 => moveToStatus model w .moveCcr .ccr
  | 0x46C0 => moveToStatus model w .moveSr .sr
  | 0x4800 => negateDecimal model w
  | 0x4840 => swapOrPush model w
  | 0x4880 => storeMultiple model w .word
  | 0x48C0 => storeMultiple model w .long
  | 0x4AC0 => testAndSet model w
  | 0x4C80 => loadMultiple model w .word
  | 0x4CC0 => loadMultiple model w .long
  | 0x4C00 => longArithmetic model w .mulLong
  | 0x4C40 => longArithmetic model w .divLong
  | _ => unaryArithmetic model w

/-- MOVEC: a control register to or from a general one. -/
def controlMove : WordReader Form := do
  let ext ← next
  let register := Operand.general (field4 ext 12)
  let control := Operand.control (ext &&& 0x0FFF)
  if bit w 0 then return .sized .movec .long register control
  else return .sized .movec .long control register

def stackFrame : WordReader Form :=
  if bit w 3 then .done (.unsized .unlk (.addr (lowerReg w)) .none)
  else do
    let disp := (signed16 (← next)).toInt32.toUInt32
    return .sized .link .word (.addr (lowerReg w)) (.immediate disp)

def userStackMove : Form :=
  if bit w 3 then .sized .moveUsp .long .usp (.addr (lowerReg w))
  else .sized .moveUsp .long (.addr (lowerReg w)) .usp

def fixedForm : Option (WordReader Form) :=
  match w.toNat with
  | 0x4AFC => some (.done (.bare .illegal))
  | 0x4E70 => some (.done (.bare .reset))
  | 0x4E71 => some (.done (.bare .nop))
  | 0x4E72 => some do
    return .sized .stop .word (.immediate (← next).toUInt32) .none
  | 0x4E73 => some (.done (.bare .rte))
  | 0x4E74 =>
    if model.is68010OrLater then some do
      return .unsized .rtd (.immediate (signed16 (← next)).toInt32.toUInt32) .none
    else none
  | 0x4E75 => some (.done (.bare .rts))
  | 0x4E76 => some (.done (.bare .trapv))
  | 0x4E77 => some (.done (.bare .rtr))
  | 0x4E7A => if model.is68010OrLater then some (controlMove w) else none
  | 0x4E7B => if model.is68010OrLater then some (controlMove w) else none
  | _ => none

def line4 : WordReader Form :=
  match fixedForm model w with
  | some reader => reader
  | none =>
    match (w &&& 0xFFF0).toNat with
    | 0x4E40 => .done (.unsized .trap (.immediate (w &&& 0xF).toUInt32) .none)
    | 0x4E50 => stackFrame w
    | 0x4E60 => .done (userStackMove w)
    | _ => if bit w 8 then addressAndBounds model w else operandForms model w

end Dynarec68k.Decode
