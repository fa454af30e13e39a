import Dynarec68k.Isa.Decode.Arithmetic
import Dynarec68k.Isa.Decode.Control
import Dynarec68k.Isa.Decode.Immediate
import Dynarec68k.Isa.Decode.Shift
import Dynarec68k.Isa.Decode.Transfer

namespace Dynarec68k

namespace Decode

def form (model : Model) (w : UInt16) : WordReader Form :=
  match Word.field4 w 12 with
  | 0 => line0 model w
  | 1 => lineMove model w
  | 2 => lineMove model w
  | 3 => lineMove model w
  | 4 => line4 model w
  | 5 => line5 model w
  | 6 => line6 model w
  | 7 => line7 w
  | 8 => line8 model w
  | 9 => lineSum model w .sub .subx
  | 10 => .done (.unsized .lineA (.immediate w.toUInt32) .none)
  | 11 => lineB model w
  | 12 => lineC model w
  | 13 => lineSum model w .add .addx
  | 14 => lineE model w
  | _ => .done (.unsized .lineF (.immediate w.toUInt32) .none)

def reader (model : Model) : WordReader Form := do
  form model (← WordReader.next)

end Decode

def Instruction.decode? (model : Model) (address : UInt32) (words : List UInt16) :
    Except DecodeError Instruction :=
  match (Decode.reader model).run 0 words with
  | .ok (form, count) => .ok { form with address := address, length := 2 * count }
  | .error error => .error error

/-- The instruction at `address`. Words that encode none give the invalid instruction. -/
def Instruction.decode (model : Model) (address : UInt32) (words : List UInt16) : Instruction :=
  match Instruction.decode? model address words with
  | .ok inst => inst
  | .error _ => Instruction.ofInvalid address (words.headD 0)

end Dynarec68k
