import Dynarec68k.Codegen.ConditionCodes
import Dynarec68k.Codegen.EffectiveAddress
import Dynarec68k.Guest.ExceptionVector

namespace Dynarec68k.Codegen

open Host Role

variable (config : Config) (inst : Instruction)

def binaryOp : Op → Alu × FlagUpdates
  | .add => (.add, FlagUpdates.arithmetic)
  | .sub => (.sub, FlagUpdates.arithmetic)
  | .and => (.and, FlagUpdates.logic)
  | .or => (.or, FlagUpdates.logic)
  | _ => (.xor, FlagUpdates.logic)

def addressBinaryClocks : Nat :=
  if inst.variant = .quick then 8
  else
    (if inst.size = .word then 8 else 6) + addressClocks inst.src inst.size
      + (if inst.size = .long ∧ isRegisterOrImmediate inst.src then 2 else 0)

def binaryClocks : Nat :=
  let quick := inst.variant = .quick
  4 + (if quick then 0 else addressClocks inst.src inst.size)
    + (if inst.dst.isDataRegister ∧ inst.size = .long then
        if quick ∨ isRegisterOrImmediate inst.src then 4 else 2
      else 0)

def modify (size : Size) (body : Place → Fragment) : Fragment :=
  let dest := destOf config inst.dst size
  locateDest config inst.pcBase inst.dst size ++ readDest dest size ++ body dest.value
    ++ writeDest dest dest.value size

/-- Address registers take the whole of the widened source and set no flags. -/
def binary : Fragment :=
  let size := inst.size
  let (op, updates) := binaryOp inst.op
  match inst.dst with
  | .addr reg =>
    charge config (addressBinaryClocks inst) ++ fetchSourceLong config inst.pcBase inst.src size
      ++ alu op (sourceLongPlace config inst.src size) (config.addrPlace reg) .long
  | _ =>
    charge config (binaryClocks inst) ++ fetchSource config inst.pcBase inst.src size
      ++ modify config inst size fun value =>
        alu op (sourcePlace config inst.src size) value size ++ setFlags updates

def compareClocks : Nat :=
  4 + addressClocks inst.src inst.size
    + (if inst.dst.isAddressRegister ∨ (inst.dst.isDataRegister ∧ inst.size = .long) then 2 else 0)

def compare : Fragment :=
  let size := inst.size
  match inst.dst with
  | .addr reg =>
    charge config (compareClocks inst) ++ fetchSourceLong config inst.pcBase inst.src size
      ++ alu .cmp (sourceLongPlace config inst.src size) (config.addrPlace reg) .long
      ++ setFlags FlagUpdates.comparison
  | _ =>
    let dest := destOf config inst.dst size
    charge config (compareClocks inst) ++ fetchSource config inst.pcBase inst.src size
      ++ locateDest config inst.pcBase inst.dst size ++ readDest dest size
      ++ alu .cmp (sourcePlace config inst.src size) dest.value size
      ++ setFlags FlagUpdates.comparison

def extendedBinary : Fragment :=
  let size := inst.size
  let clocks := if inst.src.isPreDec then 6 else if size = .long then 8 else 4
  let op := if inst.op = .addx then Alu.adc else Alu.sbb
  charge config clocks ++ fetchSource config inst.pcBase inst.src size
    ++ modify config inst size fun value =>
      loadExtend ++ alu op (sourcePlace config inst.src size) value size
        ++ setFlags FlagUpdates.extended ++ clearZ

def negateClocks : Nat :=
  4 + addressClocks inst.dst inst.size
    + (if inst.dst.isDataRegister ∧ inst.size = .long then 2 else 0)

def negate : Fragment :=
  let size := inst.size
  let dest := destOf config inst.dst size
  charge config (negateClocks inst)
    ++ (match inst.op with
      | .neg =>
        modify config inst size fun value =>
          unary .neg value size ++ setFlags FlagUpdates.arithmetic
      | .negx =>
        locateDest config inst.pcBase inst.dst size ++ readDest dest size ++ load 0 temp
          ++ loadExtend ++ alu .sbb dest.value (.reg temp) size
          ++ setFlags FlagUpdates.extended ++ clearZ ++ writeDest dest (.reg temp) size
      | _ =>
        modify config inst size fun value => unary .not value size ++ testFlags value size)

/-- Memory is charged for the read before the write, which is not made. -/
def clearClocks : Nat :=
  4 + addressClocks inst.dst inst.size
    + (if inst.dst.isMemory then if inst.size = .long then 8 else 4
      else if inst.size = .long then 2
      else 0)

def clear : Fragment :=
  charge config (clearClocks inst) ++ locateDest config inst.pcBase inst.dst inst.size
    ++ setFlags (FlagUpdates.logicOf 0 inst.size)
    ++ writeDest (destOf config inst.dst inst.size) (.imm 0) inst.size

def test : Fragment :=
  charge config (4 + addressClocks inst.dst inst.size)
    ++ fetchSource config inst.pcBase inst.dst inst.size
    ++ testFlags (sourcePlace config inst.dst inst.size) inst.size

def testAndSet : Fragment :=
  charge config (if inst.dst.isMemory then 10 + addressClocks inst.dst .byte else 4)
    ++ modify config inst .byte fun value =>
      testFlags value .byte ++ alu .or (.imm 0x80) value .byte

/-- Trap when Dn is negative or above a bound. N tells which. Behind the two comparisons stand a
jump past both traps, the trap of negative values and the trap of values above. -/
def checkBounds : Fragment :=
  match inst.dst with
  | .data reg =>
    let dn := config.dataPlace reg
    let negative := setFlag .n true ++ raise ExceptionVector.chk inst.nextAddress
    let above := setFlag .n false ++ raise ExceptionVector.chk inst.nextAddress
    charge config (10 + addressClocks inst.src inst.size)
      ++ fetchSource config inst.pcBase inst.src inst.size
      ++ alu .cmp (.imm 0) dn inst.size
      ++ jumpOverIf .less 3
      ++ alu .cmp (sourcePlace config inst.src inst.size) dn inst.size
      ++ jumpOverIf .greater (1 + negative.length)
      ++ skip (negative ++ above)
  | _ => []

/-- The time of the multiplication itself depends on the data. -/
def multiply : Fragment :=
  match inst.dst with
  | .data reg =>
    charge config (addressClocks inst.src .word) ++ fetchSource config inst.pcBase inst.src .word
      ++ movzx (sourcePlace config inst.src .word) scratch1 .word .long
      ++ mov (config.dataPlace reg) (.reg scratch2) .long
      ++ service (if inst.op = .mulu then .mulu else .muls)
      ++ mov (.reg scratch1) (config.dataPlace reg) .long
  | _ => []

/-- Division by zero traps with the next instruction stacked. -/
def divide : Fragment :=
  match inst.dst with
  | .data reg =>
    charge config (addressClocks inst.src .word) ++ fetchSource config inst.pcBase inst.src .word
      ++ movzx (sourcePlace config inst.src .word) scratch1 .word .long
      ++ mov (config.dataPlace reg) (.reg scratch2) .long
      ++ load inst.nextAddress scratch3
      ++ service (if inst.op = .divu then .divu else .divs)
      ++ mov (.reg scratch1) (config.dataPlace reg) .long
  | _ => []

/-- Run a decimal service on a source and a destination. The address of a destination in memory
is kept in the fourth scratch register. -/
def decimalOn (service' : Service) (source : Place) (dest : Dest) : Fragment :=
  match dest with
  | .place dst =>
    mov source (.reg scratch1) .long ++ mov dst (.reg scratch2) .long
      ++ service service' ++ mov (.reg scratch1) dst .byte
  | .memory _ =>
    readDest dest .byte ++ mov (.reg scratch2) (.reg scratch4) .long
      ++ mov dest.value (.reg scratch2) .long ++ mov source (.reg scratch1) .long
      ++ service service' ++ mov (.reg scratch4) (.reg scratch2) .long
      ++ callWrite .byte false

def decimalBinary : Fragment :=
  charge config 6 ++ fetchSource config inst.pcBase inst.src .byte
    ++ locateDest config inst.pcBase inst.dst .byte
    ++ decimalOn (if inst.op = .abcd then .abcd else .sbcd) (sourcePlace config inst.src .byte)
      (destOf config inst.dst .byte)

def decimalNegate : Fragment :=
  locateDest config inst.pcBase inst.dst .byte
    ++ (match destOf config inst.dst .byte with
      | .place dst =>
        charge config 6 ++ mov dst (.reg scratch1) .long ++ load 0 scratch2
          ++ service .sbcd ++ mov (.reg scratch1) dst .byte
      | .memory lowFirst =>
        charge config (4 + addressClocks inst.dst .byte)
          ++ readDest (.memory lowFirst) .byte
          ++ mov (.reg scratch2) (.reg scratch4) .long ++ load 0 scratch2
          ++ service .sbcd ++ mov (.reg scratch4) (.reg scratch2) .long
          ++ callWrite .byte false)

end Dynarec68k.Codegen
