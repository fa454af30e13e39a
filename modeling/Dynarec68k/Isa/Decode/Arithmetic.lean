import Dynarec68k.Isa.Decode.Address

namespace Dynarec68k.Decode

open WordReader

variable (model : Model) (w : UInt16)

def registerForms (op : Op) : WordReader Form := do
  let size ← sizeOr (Size.ofBits (Word.field2 w 6)) w
  let operand ← operandOf model w size
  if Word.bit w 8 then
    require operand.isMemoryAlterable operand
    return .sized op size (.data (upperReg w)) operand
  else
    require
      (if op = .or || op = .and then operand.isData
        else !(size = .byte && operand.isAddressRegister))
      operand
    return .sized op size operand (.data (upperReg w))

def wordProduct (op : Op) : WordReader Form := do
  let src ← operandOf model w .word
  require src.isData src
  return .sized op .word src (.data (upperReg w))

/-- PACK and UNPK. The adjustment word is read and not kept. -/
def packing (op : Op) : WordReader Form := do
  requireModel model.capabilities.wideOps w
  let _adjustment ← next
  let (src, dst) := chainedPair w
  return .unsized op src dst

def chained (op : Op) (size : Size) : Form :=
  .sized op size (chainedPair w).1 (chainedPair w).2

/-- OR, DIVU, DIVS, SBCD, PACK and UNPK. -/
def line8 : WordReader Form :=
  match Word.field3 w 6, decide ((mode w).val < 2) with
  | 3, _ => wordProduct model w .divu
  | 7, _ => wordProduct model w .divs
  | 4, true => .done (chained w .sbcd .byte)
  | 5, true => packing model w .pack
  | 6, true => packing model w .unpk
  | _, _ => registerForms model w .or

/-- The address-register forms of ADD, SUB and CMP. -/
def addressForm (op : Op) (size : Size) : WordReader Form := do
  let src ← operandOf model w size
  return .sized op size src (.addr (upperReg w))

/-- ADD and SUB with their address and multi-precision forms. -/
def lineSum (op extended : Op) : WordReader Form :=
  match Word.field3 w 6, decide ((mode w).val < 2) with
  | 3, _ => addressForm model w op .word
  | 7, _ => addressForm model w op .long
  | 4, true => .done (chained w extended .byte)
  | 5, true => .done (chained w extended .word)
  | 6, true => .done (chained w extended .long)
  | _, _ => registerForms model w op

/-- CMP to a data register. -/
def compareForm (size : Size) : WordReader Form := do
  let src ← operandOf model w size
  require (!(size = .byte && src.isAddressRegister)) src
  return .sized .cmp size src (.data (upperReg w))

/-- CMPM and EOR. -/
def memoryCompareForm (size : Size) : WordReader Form :=
  if mode w = 1 then
    .done (.sized .cmp size (.postInc (lowerReg w)) (.postInc (upperReg w)))
  else do
    let dst ← operandOf model w size
    require dst.isDataAlterable dst
    return .sized .eor size (.data (upperReg w)) dst

/-- CMP, CMPA, CMPM and EOR. -/
def lineB : WordReader Form :=
  match Word.field3 w 6 with
  | 0 => compareForm model w .byte
  | 1 => compareForm model w .word
  | 2 => compareForm model w .long
  | 3 => addressForm model w .cmp .word
  | 4 => memoryCompareForm model w .byte
  | 5 => memoryCompareForm model w .word
  | 6 => memoryCompareForm model w .long
  | 7 => addressForm model w .cmp .long

/-- AND, MULU, MULS, ABCD and EXG. -/
def lineC : WordReader Form :=
  match Word.field3 w 6, mode w with
  | 3, _ => wordProduct model w .mulu
  | 7, _ => wordProduct model w .muls
  | 4, 0 => .done (chained w .abcd .byte)
  | 4, 1 => .done (chained w .abcd .byte)
  | 5, 0 => .done (.sized .exg .long (.data (upperReg w)) (.data (lowerReg w)))
  | 5, 1 => .done (.sized .exg .long (.addr (upperReg w)) (.addr (lowerReg w)))
  | 6, 1 => .done (.sized .exg .long (.data (upperReg w)) (.addr (lowerReg w)))
  | _, _ => registerForms model w .and

end Dynarec68k.Decode
