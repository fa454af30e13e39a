namespace Dynarec68k

instance neZeroFour : @NeZero Nat Zero.ofOfNat0 4 :=
  ⟨nofun⟩

instance neZeroEight : @NeZero Nat Zero.ofOfNat0 8 :=
  ⟨nofun⟩

instance neZeroSixteen : @NeZero Nat Zero.ofOfNat0 16 :=
  ⟨nofun⟩

namespace Word

def bit (w : UInt16) (n : Nat) : Bool :=
  w.toNat.testBit n

def field2 (w : UInt16) (n : Nat) : Fin 4 :=
  Fin.ofNat 4 (w.toNat >>> n)

def field3 (w : UInt16) (n : Nat) : Fin 8 :=
  Fin.ofNat 8 (w.toNat >>> n)

def field4 (w : UInt16) (n : Nat) : Fin 16 :=
  Fin.ofNat 16 (w.toNat >>> n)

def signed16 (w : UInt16) : Int16 :=
  w.toInt16

def signed8 (w : UInt16) : Int8 :=
  w.toUInt8.toInt8

def signExtend8 (value : UInt32) : UInt32 :=
  value.toUInt8.toInt8.toInt32.toUInt32

def signExtend16 (value : UInt32) : UInt32 :=
  value.toUInt16.toInt16.toInt32.toUInt32

def join (high low : UInt16) : UInt32 :=
  (high.toUInt32 <<< 16) ||| low.toUInt32

/-- Bit 0 and bit 15 trade places, and so on inwards. -/
def reverse (w : UInt16) : UInt16 :=
  (List.range 16).foldl
    (fun acc n => if w.toNat.testBit n then acc ||| ((1 : UInt16) <<< (15 - n).toUInt16) else acc) 0

def population (w : UInt16) : Nat :=
  (List.range 16).countP fun n => w.toNat.testBit n

end Word

namespace Hex

def upperDigit (n : Nat) : Char :=
  if n < 10 then Char.ofNat ('0'.toNat + n) else Char.ofNat ('A'.toNat + (n - 10))

def lowerDigit (n : Nat) : Char :=
  if n < 10 then Char.ofNat ('0'.toNat + n) else Char.ofNat ('a'.toNat + (n - 10))

/-- Digits of `n` in base sixteen, most significant first, none for zero. -/
def digits (digit : Nat → Char) (n : Nat) (tail : List Char) : List Char :=
  if h : n = 0 then tail
  else digits digit (n / 16) (digit (n % 16) :: tail)
termination_by n
decreasing_by omega

def padded (digit : Nat → Char) (width n : Nat) : String :=
  let body := digits digit n []
  String.ofList (List.replicate (width - body.length) '0' ++ body)

def upper (n : Nat) : String :=
  padded upperDigit 1 n

def upperPadded (width n : Nat) : String :=
  padded upperDigit width n

def lowerPadded (width n : Nat) : String :=
  padded lowerDigit width n

/-- A signed number as `$1F` or `-$1F`. -/
def signed (n : Int) : String :=
  if n < 0 then "-$" ++ upper n.natAbs else "$" ++ upper n.natAbs

def ofBytes (bytes : List UInt8) : String :=
  String.join (bytes.map fun b => upperPadded 2 b.toNat)

def ofWords (words : List UInt16) : String :=
  String.join (words.map fun w => upperPadded 4 w.toNat)

end Hex

end Dynarec68k
