import Dynarec68k.Isa.Instruction
import Dynarec68k.Isa.Model
import Dynarec68k.Isa.WordReader

namespace Dynarec68k.Decode

open WordReader Word

def require (ok : Bool) (operand : Operand) : WordReader Unit :=
  if ok then .done ()
  else
    match operand.modeReg with
    | some (mode, reg) => .fail (.invalidAddress mode.val reg.val)
    | none => .fail (.invalidAddress 255 255)

/-- Refuse an opcode word unless its model has it. -/
def requireModel (ok : Bool) (opcode : UInt16) : WordReader Unit :=
  if ok then .done () else .fail (.unsupported opcode)

def sizeOr (size : Option Size) (opcode : UInt16) : WordReader Size :=
  match size with
  | some size => .done size
  | none => .fail (.unrecognized opcode)

def immediate : Size → WordReader UInt32
  | .byte => do return (← next).toUInt32 &&& 0xFF
  | .word => do return (← next).toUInt32
  | .long => nextLong

/-- The word after the first extension word is two bytes further on, and so forth: what to add to
a displacement read at `position` to make it count from the first extension word. -/
def pcAdjust (position : Nat) : Int32 :=
  Int32.ofNat (2 * (position - 1))

/-- Index register of an extension word. Only the last model scales it. -/
def indexReg (model : Model) (ext : UInt16) : IndexReg where
  reg := field4 ext 12
  long := bit ext 11
  shift := if model.is68020 then field2 ext 9 else 0

/-- A displacement of no, one or two words, by the size field of a full extension word. -/
def sizedDisplacement (field : Fin 4) : WordReader Int32 :=
  match field with
  | 2 => do return (signed16 (← next)).toInt32
  | 3 => do return (← nextLong).toInt32
  | _ => .done 0

/-- Reserved: bit 3, a base displacement size of zero, and the indirections that the index field
does not allow. -/
def fullExtensionReserved (ext : UInt16) : Bool :=
  let selection := field3 ext 0
  bit ext 3 || field2 ext 4 == 0 || selection == 4
    || (bit ext 6 && decide (3 < selection.val))

def fullExtension (model : Model) (ext : UInt16) : WordReader FullIndex :=
  if fullExtensionReserved ext then .fail (.reservedExtension ext)
  else do
    let selection := field3 ext 0
    let base ← sizedDisplacement (field2 ext 4)
    let outer ← sizedDisplacement (field2 ext 0)
    return {
      baseSuppressed := bit ext 7
      index := if bit ext 6 then none else some (indexReg model ext)
      baseDisp := base
      memory :=
        if selection == 0 then .none
        else if selection.val ≤ 3 then .preIndexed outer
        else .postIndexed outer }

/-- Bit 8 of an extension word marks the full format, where the model knows it. -/
def isFull (model : Model) (ext : UInt16) : Bool :=
  bit ext 8 && model.is68020

def extendedMode (model : Model) (reg : Fin 8) (size : Size) : WordReader Operand :=
  match reg with
  | 0 => do return .absShort (signed16 (← next)).toInt32.toUInt32
  | 1 => do return .absLong (← nextLong)
  | 2 => do
    let (position, w) ← nextAt
    return .pcDisplaced ((signed16 w).toInt32 + pcAdjust position)
  | 3 => do
    let (position, ext) ← nextAt
    if isFull model ext then
      return .pcFull ((← fullExtension model ext).rebase (pcAdjust position))
    else
      return .pcIndexed (indexReg model ext) ((signed8 ext).toInt32 + pcAdjust position)
  | 4 => do return .immediate (← immediate size)
  | _ => .fail (.invalidAddress 7 reg.val)

def effectiveAddress (model : Model) (mode reg : Fin 8) (size : Size) : WordReader Operand :=
  match mode with
  | 0 => .done (.data reg)
  | 1 => .done (.addr reg)
  | 2 => .done (.indirect reg)
  | 3 => .done (.postInc reg)
  | 4 => .done (.preDec reg)
  | 5 => do return .displaced reg (signed16 (← next))
  | 6 => do
    let ext ← next
    if isFull model ext then
      return .full reg (← fullExtension model ext)
    else
      return .indexed reg (indexReg model ext) (signed8 ext)
  | 7 => extendedMode model reg size

def operandOf (model : Model) (opcode : UInt16) (size : Size) : WordReader Operand :=
  effectiveAddress model (field3 opcode 3) (field3 opcode 0) size

def upperReg (opcode : UInt16) : Fin 8 :=
  field3 opcode 9

def mode (opcode : UInt16) : Fin 8 :=
  field3 opcode 3

def lowerReg (opcode : UInt16) : Fin 8 :=
  field3 opcode 0

/-- Register or predecrement pair of the multi-precision and packing operations. -/
def chainedPair (opcode : UInt16) : Operand × Operand :=
  if bit opcode 3 then (.preDec (lowerReg opcode), .preDec (upperReg opcode))
  else (.data (lowerReg opcode), .data (upperReg opcode))

end Dynarec68k.Decode
