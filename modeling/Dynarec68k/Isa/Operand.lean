import Dynarec68k.Word

/-!
Instruction operands. Each addressing mode carries the payload it needs and nothing else.
Displacements from the program counter are stored relative to the word after the opcode,
whichever extension word they were read from.
-/

namespace Dynarec68k

structure IndexReg where
  /-- 0 to 7 are D0 to D7, 8 to 15 are A0 to A7. -/
  reg : Fin 16
  /-- Use all 32 bits instead of the sign-extended low word. -/
  long : Bool
  /-- Logarithm of the scale factor. -/
  shift : Fin 4
  deriving DecidableEq, Repr

namespace IndexReg

def isAddress (index : IndexReg) : Bool :=
  8 ≤ index.reg.val

def number (index : IndexReg) : Nat :=
  index.reg.val % 8

def scale (index : IndexReg) : Nat :=
  1 <<< index.shift.val

end IndexReg

inductive MemoryIndirect where
  | none
  /-- `([bd,An,Xn],od)` -/
  | preIndexed (outer : Int32)
  /-- `([bd,An],Xn,od)` -/
  | postIndexed (outer : Int32)
  deriving DecidableEq, Repr

structure FullIndex where
  baseSuppressed : Bool
  index : Option IndexReg
  baseDisp : Int32
  memory : MemoryIndirect
  deriving DecidableEq, Repr

/-- Count the base displacement from another word, `adjust` bytes before the one it was read
from. A displacement that has no base to count from stays as it is. -/
def FullIndex.rebase (full : FullIndex) (adjust : Int32) : FullIndex :=
  if full.baseSuppressed then full else { full with baseDisp := full.baseDisp + adjust }

inductive FieldParam where
  | immediate (n : Nat)
  | data (reg : Fin 8)
  deriving DecidableEq, Repr

inductive Operand where
  | none
  /-- `Dn` -/
  | data (reg : Fin 8)
  /-- `An` -/
  | addr (reg : Fin 8)
  /-- `(An)` -/
  | indirect (reg : Fin 8)
  /-- `(An)+` -/
  | postInc (reg : Fin 8)
  /-- `-(An)` -/
  | preDec (reg : Fin 8)
  /-- `d16(An)` -/
  | displaced (reg : Fin 8) (disp : Int16)
  /-- `d8(An,Xn)` -/
  | indexed (reg : Fin 8) (index : IndexReg) (disp : Int8)
  | full (reg : Fin 8) (ext : FullIndex)
  /-- `(xxx).W`, held sign-extended. -/
  | absShort (address : UInt32)
  /-- `(xxx).L` -/
  | absLong (address : UInt32)
  /-- `d16(PC)` -/
  | pcDisplaced (disp : Int32)
  /-- `d8(PC,Xn)` -/
  | pcIndexed (index : IndexReg) (disp : Int32)
  | pcFull (ext : FullIndex)
  /-- `#imm`, already extended as the operation requires. -/
  | immediate (value : UInt32)
  /-- Branch displacement from the word after the opcode. -/
  | displacement (disp : Int32)
  /-- MOVEM register mask in the order it was encoded. -/
  | regList (mask : UInt16)
  | regPair (primary secondary : Fin 8)
  | ccr
  | sr
  | usp
  | control (number : UInt16)
  | bitField (offset width : FieldParam)
  deriving DecidableEq, Repr

namespace Operand

def modeReg : Operand → Option (Fin 8 × Fin 8)
  | .data reg => some (0, reg)
  | .addr reg => some (1, reg)
  | .indirect reg => some (2, reg)
  | .postInc reg => some (3, reg)
  | .preDec reg => some (4, reg)
  | .displaced reg _ => some (5, reg)
  | .indexed reg _ _ => some (6, reg)
  | .full reg _ => some (6, reg)
  | .absShort _ => some (7, 0)
  | .absLong _ => some (7, 1)
  | .pcDisplaced _ => some (7, 2)
  | .pcIndexed _ _ => some (7, 3)
  | .pcFull _ => some (7, 3)
  | .immediate _ => some (7, 4)
  | _ => Option.none

/-- The six-bit effective-address field of most opcode words. -/
def eaBits (operand : Operand) : Option Nat :=
  operand.modeReg.map fun (mode, reg) => 8 * mode.val + reg.val

def isRegister : Operand → Bool
  | .data _ => true
  | .addr _ => true
  | _ => false

def isAddressRegister : Operand → Bool
  | .addr _ => true
  | _ => false

def isDataRegister : Operand → Bool
  | .data _ => true
  | _ => false

def isImmediate : Operand → Bool
  | .immediate _ => true
  | _ => false

def isPreDec : Operand → Bool
  | .preDec _ => true
  | _ => false

def isPostInc : Operand → Bool
  | .postInc _ => true
  | _ => false

def isMemory : Operand → Bool
  | .indirect _ => true
  | .postInc _ => true
  | .preDec _ => true
  | .displaced _ _ => true
  | .indexed _ _ _ => true
  | .full _ _ => true
  | .absShort _ => true
  | .absLong _ => true
  | .pcDisplaced _ => true
  | .pcIndexed _ _ => true
  | .pcFull _ => true
  | _ => false

def isPcRelative : Operand → Bool
  | .pcDisplaced _ => true
  | .pcIndexed _ _ => true
  | .pcFull _ => true
  | _ => false

/-- Data addressing: everything but address registers. -/
def isData (operand : Operand) : Bool :=
  operand.isMemory || operand.isDataRegister || operand.isImmediate

/-- Control addressing: memory modes that change no register. -/
def isControl (operand : Operand) : Bool :=
  operand.isMemory && !(operand.isPostInc || operand.isPreDec)

/-- Alterable: neither relative to the program counter nor immediate. -/
def isAlterable (operand : Operand) : Bool :=
  operand.isRegister || (operand.isMemory && !operand.isPcRelative)

def isDataAlterable (operand : Operand) : Bool :=
  operand.isAlterable && !operand.isAddressRegister

def isMemoryAlterable (operand : Operand) : Bool :=
  operand.isMemory && !operand.isPcRelative

def immediateValue : Operand → Option UInt32
  | .immediate value => some value
  | _ => Option.none

def general (reg : Fin 16) : Operand :=
  if reg.val < 8 then .data (Fin.ofNat 8 reg.val) else .addr (Fin.ofNat 8 reg.val)

end Operand

/-- A MOVEM mask with bit 0 for D0. Masks that go with a predecrement are encoded in reverse. -/
def normalizeRegList (mask : UInt16) (reversed : Bool) : UInt16 :=
  if reversed then Word.reverse mask else mask

end Dynarec68k
