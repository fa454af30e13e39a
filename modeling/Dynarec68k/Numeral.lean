namespace Dynarec68k.Numeral

def isDecimal (c : Char) : Bool :=
  decide ('0' ≤ c) && decide (c ≤ '9')

def hexValue? (c : Char) : Option Nat :=
  if isDecimal c then some (c.toNat - '0'.toNat)
  else if 'a' ≤ c ∧ c ≤ 'f' then some (c.toNat - 'a'.toNat + 10)
  else if 'A' ≤ c ∧ c ≤ 'F' then some (c.toNat - 'A'.toNat + 10)
  else none

def decimalValue? (c : Char) : Option Nat :=
  if isDecimal c then some (c.toNat - '0'.toNat) else none

def ofValues (base : Nat) (values : List Nat) : Nat :=
  values.foldl (fun number value => base * number + value) 0

def ofDigits? (base : Nat) (value? : Char → Option Nat) (digits : List Char) : Option Nat :=
  if digits.isEmpty then none else (digits.mapM value?).map (ofValues base)

end Dynarec68k.Numeral
