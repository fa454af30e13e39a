import Dynarec68k.Word

namespace Dynarec68k

inductive Size where
  | byte
  | word
  | long
  deriving DecidableEq, Repr

namespace Size

def ofBits (field : Fin 4) : Option Size :=
  match field with
  | 0 => some .byte
  | 1 => some .word
  | 2 => some .long
  | 3 => none

/-- The size field of MOVE: 01 byte, 11 word, 10 long. -/
def ofMoveBits (field : Fin 4) : Option Size :=
  match field with
  | 0 => none
  | 1 => some .byte
  | 2 => some .long
  | 3 => some .word

def bits : Size → Fin 4
  | .byte => 0
  | .word => 1
  | .long => 2

def moveBits : Size → Fin 4
  | .byte => 1
  | .word => 3
  | .long => 2

def bytes : Size → Nat
  | .byte => 1
  | .word => 2
  | .long => 4

def width (size : Size) : Nat :=
  8 * size.bytes

def modulus (size : Size) : Nat :=
  1 <<< size.width

def mask : Size → UInt32
  | .byte => 0xFF
  | .word => 0xFFFF
  | .long => 0xFFFFFFFF

def signBit : Size → UInt32
  | .byte => 0x80
  | .word => 0x8000
  | .long => 0x80000000

def signExtend (size : Size) (value : UInt32) : UInt32 :=
  match size with
  | .byte => Word.signExtend8 value
  | .word => Word.signExtend16 value
  | .long => value

def suffix : Size → String
  | .byte => "b"
  | .word => "w"
  | .long => "l"

theorem ofBits_bits (size : Size) : ofBits size.bits = some size := by
  cases size <;> rfl

end Size

end Dynarec68k
