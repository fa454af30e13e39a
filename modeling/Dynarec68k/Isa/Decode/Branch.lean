import Dynarec68k.Isa.Decode.Address

namespace Dynarec68k.Decode

open WordReader

variable (model : Model) (w : UInt16)

/-- A three-bit count in which zero stands for eight. -/
def quickCount (field : Fin 8) : UInt32 :=
  if field = 0 then 8 else field.val.toUInt32

def quickArithmetic (size : Size) : WordReader Form := do
  let op := if Word.bit w 8 then Op.sub else Op.add
  let dst ← operandOf model w size
  require (dst.isAlterable && !(size = .byte && dst.isAddressRegister)) dst
  return (Form.sized op size (.immediate (quickCount (upperReg w))) dst).withVariant .quick

/-- TRAPcc with a word, a long or no operand. -/
def conditionalTrap (condition : Condition) : WordReader Form := do
  requireModel model.capabilities.longBranches w
  match lowerReg w with
  | 2 =>
    let value := (← next).toUInt32
    return (Form.conditional .trapcc condition (.immediate value) .none).withVariant .word
  | 3 =>
    let value ← nextLong
    return (Form.conditional .trapcc condition (.immediate value) .none).withVariant .long
  | _ => return .conditional .trapcc condition .none .none

def conditionForms : WordReader Form :=
  let condition := Condition.ofBits (Word.field4 w 8)
  if mode w = 1 then do
    let disp := (Word.signed16 (← next)).toInt32
    return (Form.conditional .dbcc condition (.displacement disp)
      (.data (lowerReg w))).withVariant .word
  else if mode w = 7 ∧ 2 ≤ (lowerReg w).val ∧ (lowerReg w).val ≤ 4 then
    conditionalTrap model w condition
  else do
    let dst ← operandOf model w .byte
    require dst.isDataAlterable dst
    return .conditional .scc condition .none dst

def line5 : WordReader Form :=
  match Size.ofBits (Word.field2 w 6) with
  | some size => quickArithmetic model w size
  | none => conditionForms model w

/-- The displacement byte 0 asks for a word, and 255 for a long where the model has it. -/
def branchDisplacement : WordReader (Variant × Int32) :=
  if w &&& 0xFF = 0 then do return (.word, (Word.signed16 (← next)).toInt32)
  else if w &&& 0xFF = 0xFF ∧ model.capabilities.longBranches then do
    return (.long, (← nextLong).toInt32)
  else .done (.byte, (Word.signed8 w).toInt32)

/-- The condition that never holds encodes the call. -/
def line6 : WordReader Form := do
  let (variant, disp) ← branchDisplacement model w
  let condition := Condition.ofBits (Word.field4 w 8)
  let form :=
    if condition = .never then Form.unsized .bsr (.displacement disp) .none
    else Form.conditional .bcc condition (.displacement disp) .none
  return form.withVariant variant

end Dynarec68k.Decode
