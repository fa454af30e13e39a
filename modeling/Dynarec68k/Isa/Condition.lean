import Dynarec68k.Word

namespace Dynarec68k

inductive Flag where
  | x
  | n
  | z
  | v
  | c
  deriving DecidableEq, Repr

namespace Flag

def all : List Flag :=
  [.x, .n, .z, .v, .c]

def ccrBit : Flag → UInt8
  | .x => 0x10
  | .n => 0x08
  | .z => 0x04
  | .v => 0x02
  | .c => 0x01

end Flag

inductive Condition where
  | always
  | never
  | high
  | lowSame
  | carryClear
  | carrySet
  | notEqual
  | equal
  | overflowClear
  | overflowSet
  | plus
  | minus
  | greaterEqual
  | less
  | greater
  | lessEqual
  deriving DecidableEq, Repr

namespace Condition

def ofBits (field : Fin 16) : Condition :=
  match field with
  | 0 => .always
  | 1 => .never
  | 2 => .high
  | 3 => .lowSame
  | 4 => .carryClear
  | 5 => .carrySet
  | 6 => .notEqual
  | 7 => .equal
  | 8 => .overflowClear
  | 9 => .overflowSet
  | 10 => .plus
  | 11 => .minus
  | 12 => .greaterEqual
  | 13 => .less
  | 14 => .greater
  | _ => .lessEqual

def bits : Condition → Fin 16
  | .always => 0
  | .never => 1
  | .high => 2
  | .lowSame => 3
  | .carryClear => 4
  | .carrySet => 5
  | .notEqual => 6
  | .equal => 7
  | .overflowClear => 8
  | .overflowSet => 9
  | .plus => 10
  | .minus => 11
  | .greaterEqual => 12
  | .less => 13
  | .greater => 14
  | .lessEqual => 15

def name : Condition → String
  | .always => "t"
  | .never => "f"
  | .high => "hi"
  | .lowSame => "ls"
  | .carryClear => "cc"
  | .carrySet => "cs"
  | .notEqual => "ne"
  | .equal => "eq"
  | .overflowClear => "vc"
  | .overflowSet => "vs"
  | .plus => "pl"
  | .minus => "mi"
  | .greaterEqual => "ge"
  | .less => "lt"
  | .greater => "gt"
  | .lessEqual => "le"

def inverse : Condition → Condition
  | .always => .never
  | .never => .always
  | .high => .lowSame
  | .lowSame => .high
  | .carryClear => .carrySet
  | .carrySet => .carryClear
  | .notEqual => .equal
  | .equal => .notEqual
  | .overflowClear => .overflowSet
  | .overflowSet => .overflowClear
  | .plus => .minus
  | .minus => .plus
  | .greaterEqual => .less
  | .less => .greaterEqual
  | .greater => .lessEqual
  | .lessEqual => .greater

def holds (condition : Condition) (flag : Flag → Bool) : Bool :=
  match condition with
  | .always => true
  | .never => false
  | .high => !flag .c && !flag .z
  | .lowSame => flag .c || flag .z
  | .carryClear => !flag .c
  | .carrySet => flag .c
  | .notEqual => !flag .z
  | .equal => flag .z
  | .overflowClear => !flag .v
  | .overflowSet => flag .v
  | .plus => !flag .n
  | .minus => flag .n
  | .greaterEqual => flag .n == flag .v
  | .less => flag .n != flag .v
  | .greater => !flag .z && flag .n == flag .v
  | .lessEqual => flag .z || flag .n != flag .v

def test (condition : Condition) (ccr : UInt8) : Bool :=
  condition.holds fun flag => ccr &&& flag.ccrBit != 0

theorem ofBits_bits (condition : Condition) : ofBits condition.bits = condition := by
  cases condition <;> rfl

theorem holds_inverse (condition : Condition) (flag : Flag → Bool) :
    condition.inverse.holds flag = !condition.holds flag := by
  cases condition <;> simp [inverse, holds] <;>
    cases flag .n <;> cases flag .v <;> cases flag .z <;> rfl

end Condition

end Dynarec68k
