import Dynarec68k.Isa.Decode.Address

namespace Dynarec68k.Decode

open WordReader Word

variable (model : Model) (w : UInt16)

def bitOp (field : Fin 4) : Op :=
  match field with
  | 0 => .btst
  | 1 => .bchg
  | 2 => .bclr
  | 3 => .bset

/-- Bit operations work on longs in data registers and on bytes in memory. -/
def bitOpSize (dst : Operand) : Size :=
  if dst.isDataRegister then .long else .byte

def dynamicBit : WordReader Form := do
  let op := bitOp (field2 w 6)
  let dst ← operandOf model w .byte
  require (if op = .btst then dst.isData else dst.isDataAlterable) dst
  return .sized op (bitOpSize dst) (.data (upperReg w)) dst

def staticBit : WordReader Form := do
  let op := bitOp (field2 w 6)
  let number := (← next).toUInt32 &&& 0xFF
  let dst ← operandOf model w .byte
  require (if op = .btst then dst.isData && !dst.isImmediate else dst.isDataAlterable) dst
  return (Form.sized op (bitOpSize dst) (.immediate number) dst).withVariant .immediate

/-- Alternate bytes of memory to or from a data register. -/
def peripheralMove : WordReader Form := do
  let memory := Operand.displaced (lowerReg w) (signed16 (← next))
  let register := Operand.data (upperReg w)
  let size := if bit w 6 then Size.long else Size.word
  if bit w 7 then return .sized .movep size register memory
  else return .sized .movep size memory register

def ccrOp (field : Fin 8) : Op :=
  match field with
  | 0 => .oriCcr
  | 1 => .andiCcr
  | _ => .eoriCcr

def srOp (field : Fin 8) : Op :=
  match field with
  | 0 => .oriSr
  | 1 => .andiSr
  | _ => .eoriSr

def immediateOp (field : Fin 8) : Op :=
  match field with
  | 0 => .or
  | 1 => .and
  | 2 => .sub
  | 3 => .add
  | 5 => .eor
  | _ => .cmp

/-- MOVES: a register to or from another address space. -/
def spaceMove : WordReader Form := do
  requireModel model.is68010OrLater w
  let size ← sizeOr (Size.ofBits (field2 w 6)) w
  let ext ← next
  let register := Operand.general (field4 ext 12)
  let memory ← operandOf model w size
  require memory.isMemoryAlterable memory
  if bit ext 11 then return .sized .moves size register memory
  else return .sized .moves size memory register

/-- ORI, ANDI, SUBI, ADDI, EORI and CMPI. The last model compares with program memory too. -/
def immediateArithmetic : WordReader Form := do
  let op := immediateOp (upperReg w)
  let size ← sizeOr (Size.ofBits (field2 w 6)) w
  let value ← immediate size
  let dst ← operandOf model w size
  require
    (if op = .cmp && model.is68020 then dst.isData && !dst.isImmediate else dst.isDataAlterable)
    dst
  return (Form.sized op size (.immediate value) dst).withVariant .immediate

/-- CHK2 and CMP2: bounds in memory against a register. -/
def boundsCheck : WordReader Form := do
  let size ← sizeOr (Size.ofBits (field2 w 9)) w
  let ext ← next
  let bounds ← operandOf model w size
  require bounds.isControl bounds
  return .sized .chk2 size bounds (.general (field4 ext 12))

/-- CAS with its compare and update registers. The two-operand form is not known. -/
def compareAndSwap (size : Size) : WordReader Form :=
  if w &&& 0x3F = 0x3C then .fail (.unrecognized w)
  else do
    let ext ← next
    let dst ← operandOf model w size
    require dst.isMemoryAlterable dst
    return .sized .cas size (.regPair (field3 ext 0) (field3 ext 6)) dst

def wideImmediate : WordReader Form := do
  requireModel model.capabilities.wideOps w
  match upperReg w with
  | 0 => boundsCheck model w
  | 1 => boundsCheck model w
  | 2 => boundsCheck model w
  | 5 => compareAndSwap model w .byte
  | 6 => compareAndSwap model w .word
  | 7 => compareAndSwap model w .long
  | _ => .fail (.unrecognized w)

/-- The logical operations, which alone reach the status register. -/
def isLogical (field : Fin 8) : Bool :=
  field == 0 || field == 1 || field == 5

def line0 : WordReader Form :=
  if bit w 8 then
    if mode w = 1 then peripheralMove w else dynamicBit model w
  else if upperReg w = 4 then staticBit model w
  else if field2 w 6 = 3 then wideImmediate model w
  else if isLogical (upperReg w) && w &&& 0xFF = 0x3C then do
    let value := (← next).toUInt32 &&& 0xFF
    return .sized (ccrOp (upperReg w)) .byte (.immediate value) .ccr
  else if isLogical (upperReg w) && w &&& 0xFF = 0x7C then do
    let value := (← next).toUInt32
    return .sized (srOp (upperReg w)) .word (.immediate value) .sr
  else if upperReg w = 7 then spaceMove model w
  else immediateArithmetic model w

end Dynarec68k.Decode
