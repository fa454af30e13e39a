import Dynarec68k.Guest.RegisterFile
import Dynarec68k.Host.Operation

namespace Dynarec68k.Host

structure Flags where
  carry : Bool
  overflow : Bool
  zero : Bool
  sign : Bool
  deriving DecidableEq, Repr

namespace Flags

def clear : Flags :=
  ⟨false, false, false, false⟩

def holds (flags : Flags) : Test → Bool
  | .overflow => flags.overflow
  | .noOverflow => !flags.overflow
  | .below => flags.carry
  | .aboveEqual => !flags.carry
  | .equal => flags.zero
  | .notEqual => !flags.zero
  | .belowEqual => flags.carry || flags.zero
  | .above => !flags.carry && !flags.zero
  | .sign => flags.sign
  | .noSign => !flags.sign
  | .less => flags.sign != flags.overflow
  | .greaterEqual => flags.sign == flags.overflow
  | .lessEqual => flags.zero || flags.sign != flags.overflow
  | .greater => !flags.zero && flags.sign == flags.overflow

theorem holds_inverse (flags : Flags) (test : Test) :
    flags.holds test.inverse = !flags.holds test := by
  obtain ⟨carry, overflow, zero, sign⟩ := flags
  cases test <;> cases carry <;> cases overflow <;> cases zero <;> cases sign <;> rfl

def ofResult (size : Size) (value : UInt32) (carry overflow : Bool) : Flags where
  carry := carry
  overflow := overflow
  zero := value &&& size.mask == 0
  sign := value &&& size.signBit != 0

end Flags

inductive FaultReason where
  | offTheEnd
  | emptyReturn
  | emptyPop
  | emptyServiceReturn
  | storeToImmediate
  | loadOutside
  | storeOutside
  deriving DecidableEq, Repr

def FaultReason.message : FaultReason → String
  | .offTheEnd => "ran off the end of the code buffer"
  | .emptyReturn => "return with empty stack"
  | .emptyPop => "pop with empty stack"
  | .emptyServiceReturn => "helper return with empty stack"
  | .storeToImmediate => "store to an immediate"
  | .loadOutside => "load outside the register file"
  | .storeOutside => "store outside the register file"

def merge (size : Size) (old value : UInt32) : UInt32 :=
  (old &&& ~~~size.mask) ||| (value &&& size.mask)

def addWith (size : Size) (a b : UInt32) (carry : Bool) : UInt32 × Flags :=
  let sum := a.toNat + b.toNat + carry.toNat
  let result := (sum % size.modulus).toUInt32
  (result, .ofResult size result (decide (size.modulus ≤ sum))
    ((a ^^^ result) &&& (b ^^^ result) &&& size.signBit != 0))

def subWith (size : Size) (a b : UInt32) (borrow : Bool) : UInt32 × Flags :=
  let taken := b.toNat + borrow.toNat
  let result := ((size.modulus + a.toNat - taken) % size.modulus).toUInt32
  (result, .ofResult size result (decide (a.toNat < taken))
    ((a ^^^ b) &&& (a ^^^ result) &&& size.signBit != 0))

namespace Alu

def apply (op : Alu) (size : Size) (a b : UInt32) (flags : Flags) : UInt32 × Flags :=
  match op with
  | .add => addWith size a b false
  | .adc => addWith size a b flags.carry
  | .sub => subWith size a b false
  | .sbb => subWith size a b flags.carry
  | .cmp => subWith size a b false
  | .and => (a &&& b, .ofResult size (a &&& b) false false)
  | .test => (a &&& b, .ofResult size (a &&& b) false false)
  | .or => (a ||| b, .ofResult size (a ||| b) false false)
  | .xor => (a ^^^ b, .ofResult size (a ^^^ b) false false)

def stores : Alu → Bool
  | .cmp => false
  | .test => false
  | _ => true

end Alu

namespace Unary

def apply (op : Unary) (size : Size) (a : UInt32) (flags : Flags) : UInt32 × Flags :=
  match op with
  | .neg =>
    let result := (0 - a) &&& size.mask
    (result, .ofResult size result (a != 0) (a == size.signBit))
  | .not => (~~~a, flags)

end Unary

namespace Shift

/-- The sign bit tells whether the top bit changed with the carry. -/
def signDiffers (size : Size) (result : UInt32) (carry : Bool) : Bool :=
  (result &&& size.signBit != 0) != carry

def shiftLeft (size : Size) (a : UInt32) (count : Nat) : UInt32 × Flags :=
  let result := (a.toNat <<< count % size.modulus).toUInt32
  let carry := decide (count ≤ size.width) && a.toNat.testBit (size.width - count)
  (result, .ofResult size result carry (signDiffers size result carry))

def shiftRight (size : Size) (a : UInt32) (count : Nat) : UInt32 × Flags :=
  let result := (a.toNat >>> count % size.modulus).toUInt32
  let carry := decide (count ≤ size.width) && a.toNat.testBit (count - 1)
  (result, .ofResult size result carry (count == 1 && a &&& size.signBit != 0))

def shiftRightSigned (size : Size) (a : UInt32) (count : Nat) : UInt32 × Flags :=
  let extended := (size.signExtend a).toInt32.toInt
  let result := (extended >>> count % Int.ofNat size.modulus).toNat.toUInt32
  let carry := extended >>> (count - 1) % 2 != 0
  (result, .ofResult size result carry false)

def rotateNat (width value n : Nat) : Nat :=
  (value <<< n ||| value >>> (width - n)) % 1 <<< width

def rotateLeft (size : Size) (a : UInt32) (count : Nat) (flags : Flags) : UInt32 × Flags :=
  let result := (rotateNat size.width a.toNat (count % size.width)).toUInt32
  let carry := result &&& 1 != 0
  (result, { flags with carry := carry, overflow := signDiffers size result carry })

def rotateRight (size : Size) (a : UInt32) (count : Nat) (flags : Flags) : UInt32 × Flags :=
  let result := (rotateNat size.width a.toNat (size.width - count % size.width)).toUInt32
  let carry := result &&& size.signBit != 0
  (result, { flags with
    carry := carry
    overflow := carry != (result &&& (size.signBit >>> 1) != 0) })

/-- The value with the carry on top of it, rotated to the left by `n` positions, `n` not zero. -/
def rotateThroughCarry (size : Size) (a : UInt32) (n : Nat) (flags : Flags) : UInt32 × Flags :=
  let wide := flags.carry.toNat <<< size.width ||| a.toNat
  let rotated := rotateNat (size.width + 1) wide n
  let result := (rotated % size.modulus).toUInt32
  let carry := rotated.testBit size.width
  (result, { flags with carry := carry, overflow := signDiffers size result carry })

def apply (op : Shift) (size : Size) (a : UInt32) (count : Nat) (flags : Flags) :
    UInt32 × Flags :=
  match op with
  | .shl => shiftLeft size a count
  | .shr => shiftRight size a count
  | .sar => shiftRightSigned size a count
  | .rol => rotateLeft size a count flags
  | .ror => rotateRight size a count flags
  | .rcl =>
    let n := count % (size.width + 1)
    if n = 0 then (a, flags) else rotateThroughCarry size a n flags
  | .rcr =>
    let n := count % (size.width + 1)
    if n = 0 then (a, flags) else rotateThroughCarry size a (size.width + 1 - n) flags

end Shift

namespace BitOp

def apply (op : BitOp) (a mask : UInt32) : Option UInt32 :=
  match op with
  | .test => none
  | .set => some (a ||| mask)
  | .reset => some (a &&& ~~~mask)
  | .change => some (a ^^^ mask)

end BitOp

structure State where
  regs : Vector UInt32 16
  flags : Flags
  /-- Innermost return address first. -/
  stack : List UInt32

namespace State

def initial : State where
  regs := Vector.replicate 16 0
  flags := .clear
  stack := []

def reg (state : State) (r : Reg) : UInt32 :=
  if h : r.number.toNat < 16 then state.regs[r.number.toNat] else 0

def setReg (state : State) (r : Reg) (value : UInt32) : State :=
  { state with regs := state.regs.setIfInBounds r.number.toNat value }

def caller? (state : State) : Option CodePtr :=
  state.stack.head?

end State

structure Machine where
  state : State
  file : RegisterFile

namespace Machine

/-- Offset of a place in the data space; below zero there is none. -/
def offset? (machine : Machine) (base : Reg) (disp : Int32) : Option Nat :=
  let offset : Int := (machine.state.reg base).toNat + disp.toInt
  if 0 ≤ offset then some offset.toNat else none

def read (machine : Machine) (place : Place) (size : Size) : Except FaultReason UInt32 :=
  match place with
  | .reg r => .ok (machine.state.reg r &&& size.mask)
  | .imm value => .ok (value &&& size.mask)
  | .slot base disp =>
    match machine.offset? base disp with
    | none => .error .loadOutside
    | some offset =>
      match machine.file.read offset size with
      | some value => .ok value
      | none => .error .loadOutside

def setReg (machine : Machine) (r : Reg) (size : Size) (value : UInt32) : Machine :=
  { machine with state := machine.state.setReg r (merge size (machine.state.reg r) value) }

def setFlags (machine : Machine) (flags : Flags) : Machine :=
  { machine with state := { machine.state with flags := flags } }

def write (machine : Machine) (place : Place) (size : Size) (value : UInt32) :
    Except FaultReason Machine :=
  match place with
  | .reg r => .ok (machine.setReg r size value)
  | .imm _ => .error .storeToImmediate
  | .slot base disp =>
    match machine.offset? base disp with
    | none => .error .storeOutside
    | some offset =>
      match machine.file.write? offset size value with
      | some file => .ok { machine with file := file }
      | none => .error .storeOutside

def count (machine : Machine) : Count → Nat
  | .imm n => n.toNat
  | .reg r => (machine.state.reg r).toNat % 64

/-- One operation that neither branches nor asks for a service. Those change nothing here. -/
def perform (machine : Machine) (op : Op) : Except FaultReason Machine :=
  match op with
  | .mov src dst size => do
    let value ← machine.read src size
    machine.write dst size value
  | .movsx src dst source target => do
    let value ← machine.read src source
    return machine.setReg dst target (source.signExtend value)
  | .movzx src dst source target => do
    let value ← machine.read src source
    return machine.setReg dst target value
  | .alu op src dst size => do
    let b ← machine.read src size
    let a ← machine.read dst size
    let (result, flags) := op.apply size a b machine.state.flags
    let machine := machine.setFlags flags
    if op.stores then machine.write dst size result else return machine
  | .unary op dst size => do
    let a ← machine.read dst size
    let (result, flags) := op.apply size a machine.state.flags
    (machine.setFlags flags).write dst size result
  | .shift op count dst size =>
    let count := machine.count count
    if count = 0 then .ok machine
    else do
      let a ← machine.read dst size
      let (result, flags) := op.apply size a count machine.state.flags
      (machine.setFlags flags).write dst size result
  | .bit op bit dst size => do
    let number ← machine.read bit .long
    let a ← machine.read dst size
    let mask : UInt32 := 1 <<< (number.toNat % size.width).toUInt32
    let machine := machine.setFlags { machine.state.flags with carry := a &&& mask != 0 }
    match op.apply a mask with
    | some result => machine.write dst size result
    | none => return machine
  | .setTest test dst =>
    machine.write dst .byte (machine.state.flags.holds test).toUInt32
  | .lea base disp dst =>
    .ok { machine with
      state := machine.state.setReg dst (machine.state.reg base + disp.toUInt32) }
  | _ => .ok machine

end Machine

end Dynarec68k.Host
