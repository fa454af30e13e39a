import Dynarec68k.Word

namespace Dynarec68k.Arithmetic

def mulUnsigned (a b : UInt16) : UInt32 :=
  a.toUInt32 * b.toUInt32

def mulSigned (a b : UInt16) : UInt32 :=
  Word.signExtend16 a.toUInt32 * Word.signExtend16 b.toUInt32

/-- Two clocks more for every one in the source. -/
def mulUnsignedClocks (source : UInt16) : Nat :=
  38 + 2 * Word.population source

/-- Two clocks more for every change between neighbouring bits, with a zero below the lowest. -/
def mulSignedClocks (source : UInt16) : Nat :=
  38 + 2 * Word.population (source ^^^ (source <<< 1))

inductive Quotient where
  | value (value : UInt32)
  | overflow
  deriving DecidableEq, Repr

def divUnsigned (dividend : UInt32) (divisor : UInt16) : Quotient :=
  let quotient := dividend.toNat / divisor.toNat
  if 0xFFFF < quotient then .overflow
  else .value (Word.join (dividend.toNat % divisor.toNat).toUInt16 quotient.toUInt16)

/-- The quotient is truncated and the remainder has the sign of the dividend. -/
def divSigned (dividend : Int32) (divisor : Int16) : Quotient :=
  let quotient := dividend.toInt.tdiv divisor.toInt
  if quotient < -32768 ∨ 32767 < quotient then .overflow
  else
    .value (Word.join (Int16.ofInt (dividend.toInt.tmod divisor.toInt)).toUInt16
      (Int16.ofInt quotient).toUInt16)

/-- Time of the remaining steps of an unsigned division, in units of two clocks. Every step shifts
the dividend; one that shifts out a one is the fastest, one that subtracts nothing the slowest. -/
def divUnsignedSteps (divisor : UInt32) : Nat → UInt32 → Nat
  | 0, _ => 0
  | steps + 1, dividend =>
    let shifted := dividend <<< 1
    if dividend &&& 0x80000000 != 0 then divUnsignedSteps divisor steps (shifted - divisor)
    else if divisor ≤ shifted then 1 + divUnsignedSteps divisor steps (shifted - divisor)
    else 2 + divUnsignedSteps divisor steps shifted

/-- Overflow is found early. -/
def divUnsignedClocks (dividend : UInt32) (divisor : UInt16) : Nat :=
  if divisor.toUInt32 ≤ dividend >>> 16 then 10
  else 2 * (38 + divUnsignedSteps (divisor.toUInt32 <<< 16) 15 dividend)

def clearUpperBits (value : Nat) : Nat :=
  (List.range 15).countP fun i => !value.testBit (i + 1)

/-- Overflow of the absolute values is found early. -/
def divSignedClocks (dividend : Int32) (divisor : Int16) : Nat :=
  let magnitude := dividend.toInt.natAbs
  let divisorMagnitude := divisor.toInt.natAbs
  let start := if dividend.toInt < 0 then 7 else 6
  if divisorMagnitude ≤ magnitude / 0x10000 then 2 * (start + 2)
  else
    let signs := if divisor.toInt < 0 then 55 else if dividend.toInt < 0 then 56 else 54
    2 * (start + signs + clearUpperBits (magnitude / divisorMagnitude))

/-- A result with its carry or borrow, and V. -/
structure DecimalResult where
  value : UInt8
  carry : Bool
  overflow : Bool
  deriving DecidableEq, Repr

/-- `dst + src + extend` in packed decimal. V tells that the correction set the top bit. -/
def decimalAdd (src dst : UInt8) (extend : Bool) : DecimalResult :=
  let low := dst.toNat % 16 + src.toNat % 16 + extend.toNat
  let lowFix := if 9 < low then 6 else 0
  let uncorrected := dst.toNat + src.toNat + extend.toNat
  let carry := decide (9 < dst.toNat / 16 + src.toNat / 16 + (low + lowFix) / 16)
  let result := uncorrected + lowFix + (if carry then 0x60 else 0)
  { value := result.toUInt8
    carry := carry
    overflow := result.testBit 7 && !uncorrected.testBit 7 }

/-- `dst - src - extend` in packed decimal. V tells that the correction cleared the top bit. -/
def decimalSub (dst src : UInt8) (extend : Bool) : DecimalResult :=
  let uncorrected := dst - src - extend.toUInt8
  let lowBorrow := decide (dst.toNat % 16 < src.toNat % 16 + extend.toNat)
  let highBorrow := decide (dst.toNat / 16 < src.toNat / 16 + lowBorrow.toNat)
  let result :=
    uncorrected - (if lowBorrow then 6 else 0) - (if highBorrow then 0x60 else 0)
  { value := result
    carry := highBorrow || (lowBorrow && decide (uncorrected < 6))
    overflow := uncorrected &&& ~~~result &&& 0x80 != 0 }

end Dynarec68k.Arithmetic
