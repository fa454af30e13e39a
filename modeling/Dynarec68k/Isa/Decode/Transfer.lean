import Dynarec68k.Isa.Decode.Address

namespace Dynarec68k.Decode

open WordReader

/-- MOVE takes its destination register and mode in the reverse of the usual order. -/
def moveDestination (model : Model) (w : UInt16) (size : Size) : WordReader Operand :=
  if Word.field3 w 6 = 1 then
    if size = .byte then .fail (.unrecognized w) else .done (.addr (upperReg w))
  else do
    let dst ← effectiveAddress model (Word.field3 w 6) (upperReg w) size
    require dst.isDataAlterable dst
    return dst

def lineMove (model : Model) (w : UInt16) : WordReader Form := do
  let size ← sizeOr (Size.ofMoveBits (Word.field2 w 12)) w
  let src ← operandOf model w size
  require (!(size = .byte && src.isAddressRegister)) src
  let dst ← moveDestination model w size
  return .sized .move size src dst

def line7 (w : UInt16) : WordReader Form :=
  if Word.bit w 8 then .fail (.unrecognized w)
  else
    .done ((Form.sized .move .long (.immediate (Word.signExtend8 w.toUInt32))
      (.data (upperReg w))).withVariant .quick)

end Dynarec68k.Decode
