import Dynarec68k.Isa.Decode.Branch

namespace Dynarec68k.Decode

open WordReader Word

variable (model : Model) (w : UInt16)

def shiftOp (kind : Fin 4) (left : Bool) : Op :=
  match kind, left with
  | 0, false => .asr
  | 0, true => .asl
  | 1, false => .lsr
  | 1, true => .lsl
  | 2, false => .roxr
  | 2, true => .roxl
  | 3, false => .ror
  | 3, true => .rol

def bitFieldOp (field : Fin 8) : BitFieldOp :=
  match field with
  | 0 => .tst
  | 1 => .extu
  | 2 => .chg
  | 3 => .exts
  | 4 => .clr
  | 5 => .ffo
  | 6 => .set
  | 7 => .ins

/-- Offset of a bit field, a register or a number below 32. -/
def fieldOffset (ext : UInt16) : FieldParam :=
  if bit ext 11 then .data (field3 ext 6) else .immediate (ext.toNat / 64 % 32)

/-- Width of a bit field, a register or a number from 1 to 32. -/
def fieldWidth (ext : UInt16) : FieldParam :=
  if bit ext 5 then .data (field3 ext 0)
  else .immediate (if ext.toNat % 32 = 0 then 32 else ext.toNat % 32)

def bitField : WordReader Form := do
  requireModel model.capabilities.wideOps w
  let ext ← next
  let dst ← operandOf model w .long
  require (dst.isDataRegister || dst.isControl) dst
  return .unsized (.bitField (bitFieldOp (field3 w 8)))
    (.bitField (fieldOffset ext) (fieldWidth ext)) dst

def memoryShift : WordReader Form := do
  let dst ← operandOf model w .word
  require dst.isMemoryAlterable dst
  return .sized (shiftOp (field2 w 9) (bit w 8)) .word .none dst

def registerShift (size : Size) : Form :=
  let op := shiftOp (field2 w 3) (bit w 8)
  let dst := Operand.data (lowerReg w)
  if bit w 5 then .sized op size (.data (upperReg w)) dst
  else (Form.sized op size (.immediate (quickCount (upperReg w))) dst).withVariant .quick

def lineE : WordReader Form :=
  match Size.ofBits (field2 w 6) with
  | some size => .done (registerShift w size)
  | none => if bit w 11 then bitField model w else memoryShift model w

end Dynarec68k.Decode
