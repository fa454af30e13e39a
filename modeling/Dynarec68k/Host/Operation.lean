import Dynarec68k.Isa.Size

namespace Dynarec68k.Host

abbrev CodePtr :=
  UInt32

structure Reg where
  number : UInt8
  deriving DecidableEq, Repr

inductive Place where
  | reg (r : Reg)
  /-- A place in the data space, at a register plus a displacement. -/
  | slot (base : Reg) (disp : Int32)
  | imm (value : UInt32)
  deriving DecidableEq, Repr

namespace Place

def reg? : Place → Option Reg
  | .reg r => some r
  | _ => none

def isImm : Place → Bool
  | .imm _ => true
  | _ => false

/-- The place some bytes further on. Registers and immediates stay where they are. -/
def moveBy (place : Place) (bytes : Int32) : Place :=
  match place with
  | .slot base disp => .slot base (disp + bytes)
  | other => other

end Place

inductive Test where
  | overflow
  | noOverflow
  | below
  | aboveEqual
  | equal
  | notEqual
  | belowEqual
  | above
  | sign
  | noSign
  | less
  | greaterEqual
  | lessEqual
  | greater
  deriving DecidableEq, Repr

namespace Test

def all : List Test :=
  [.overflow, .noOverflow, .below, .aboveEqual, .equal, .notEqual, .belowEqual, .above, .sign,
    .noSign, .less, .greaterEqual, .lessEqual, .greater]

def inverse : Test → Test
  | .overflow => .noOverflow
  | .noOverflow => .overflow
  | .below => .aboveEqual
  | .aboveEqual => .below
  | .equal => .notEqual
  | .notEqual => .equal
  | .belowEqual => .above
  | .above => .belowEqual
  | .sign => .noSign
  | .noSign => .sign
  | .less => .greaterEqual
  | .greaterEqual => .less
  | .lessEqual => .greater
  | .greater => .lessEqual

def suffix : Test → String
  | .overflow => "o"
  | .noOverflow => "no"
  | .below => "b"
  | .aboveEqual => "ae"
  | .equal => "e"
  | .notEqual => "ne"
  | .belowEqual => "be"
  | .above => "a"
  | .sign => "s"
  | .noSign => "ns"
  | .less => "l"
  | .greaterEqual => "ge"
  | .lessEqual => "le"
  | .greater => "g"

end Test

inductive Alu where
  | add
  | adc
  | sub
  | sbb
  | and
  | or
  | xor
  | cmp
  | test
  deriving DecidableEq, Repr

inductive Unary where
  | neg
  /-- Leaves the flags alone. -/
  | not
  deriving DecidableEq, Repr

inductive Shift where
  | shl
  | shr
  | sar
  | rol
  | ror
  | rcl
  | rcr
  deriving DecidableEq, Repr

inductive BitOp where
  | test
  | set
  | reset
  | change
  deriving DecidableEq, Repr

/-- Shift count. Counts in registers are taken modulo 64. -/
inductive Count where
  | imm (n : UInt8)
  | reg (r : Reg)
  deriving DecidableEq, Repr

/-- What generated code can ask of the processor it runs on. Arguments and results are in the
scratch registers. -/
inductive Service where
  /-- Address in the first scratch register, value back in it. -/
  | read8
  | read16
  | read32
  /-- Value in the first scratch register, address in the second. -/
  | write8
  | write16
  | write32
  /-- Low word first. -/
  | write32LowFirst
  /-- The cycle limit is reached; the first scratch register holds the instruction's address. -/
  | synchronize
  /-- Guest address in, position of its code out. -/
  | locate
  | refresh
  | breakpoint
  /-- There is no code memory at the address in the first scratch register. -/
  | outOfBounds
  /-- Program counter to stack in the first scratch register, vector in the second. -/
  | exception
  /-- Odd branch target in the first scratch register, the branch in the second. -/
  | fetchError
  | setSr
  | returnFromException
  /-- New status register in the first scratch register, next instruction in the second. -/
  | stop
  | reset
  /-- Source word in the first scratch register, destination in the second. -/
  | mulu
  | muls
  /-- Divisor in the first scratch register, dividend in the second, next instruction in the
  third. -/
  | divu
  | divs
  /-- Source byte in the first scratch register, destination byte in the second. -/
  | abcd
  | sbcd
  deriving DecidableEq, Repr

/-- One host instruction. Every instruction takes one position; branch displacements count from
the position after the branch. -/
inductive Op where
  | mov (src dst : Place) (size : Size)
  | movsx (src : Place) (dst : Reg) (source target : Size)
  | movzx (src : Place) (dst : Reg) (source target : Size)
  | alu (op : Alu) (src dst : Place) (size : Size)
  | unary (op : Unary) (dst : Place) (size : Size)
  | shift (op : Shift) (count : Count) (dst : Place) (size : Size)
  /-- The bit number is taken modulo the width; the old bit goes to the carry. -/
  | bit (op : BitOp) (bit dst : Place) (size : Size)
  | setTest (test : Test) (dst : Place)
  /-- Add a displacement, flags untouched. -/
  | lea (base : Reg) (disp : Int32) (dst : Reg)
  | jumpIf (test : Test) (rel : Int32)
  | jump (rel : Int32)
  | jumpReg (reg : Reg)
  | call (rel : Int32)
  | ret
  | push (reg : Reg)
  | pop (reg : Reg)
  | service (service : Service)
  deriving DecidableEq, Repr

namespace Op

def branchTarget? (op : Op) (site : CodePtr) : Option CodePtr :=
  match op with
  | .jumpIf _ rel => some (site + 1 + rel.toUInt32)
  | .jump rel => some (site + 1 + rel.toUInt32)
  | .call rel => some (site + 1 + rel.toUInt32)
  | _ => none

end Op

def relativeTo (site target : CodePtr) : Int32 :=
  (target - (site + 1)).toInt32

end Dynarec68k.Host
