namespace Dynarec68k.ExceptionVector

def addressError : Nat := 3
def illegal : Nat := 4
def zeroDivide : Nat := 5
def chk : Nat := 6
def trapOnOverflow : Nat := 7
def privilege : Nat := 8
def trace : Nat := 9
def lineA : Nat := 10
def lineF : Nat := 11

def autovector : Nat := 24

def trap : Nat := 32

/-- Clocks spent by exception processing itself. CHK charges part of its total in the
instruction. -/
def clocks (vector : Nat) : Nat :=
  if vector = addressError then 50
  else if vector = zeroDivide then 38
  else if vector = chk then 30
  else if autovector ≤ vector ∧ vector < trap then 44
  else 34

end Dynarec68k.ExceptionVector
