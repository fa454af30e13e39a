import Dynarec68k.Codegen.ConditionCodes
import Dynarec68k.Codegen.EffectiveAddress

namespace Dynarec68k.Codegen

open Host Role

variable (config : Config) (inst : Instruction)

def moveQuick : Fragment :=
  match inst.src, inst.dst with
  | .immediate value, .data reg =>
    charge config 4 ++ mov (.imm value) (config.dataPlace reg) .long
      ++ setFlags (FlagUpdates.logicOf value .long)
  | _, _ => []

/-- A destination in memory may change the address register that is moved, so it is kept aside. -/
def moveGeneral : Fragment :=
  let size := inst.size
  let fetched := sourcePlace config inst.src size
  let kept := inst.src.isAddressRegister && inst.dst.isMemory
  let value := if kept then .reg scratch3 else fetched
  charge config (4 + addressClocks inst.src size + controlClocks inst.dst)
    ++ fetchSource config inst.pcBase inst.src size
    ++ (if kept then mov fetched (.reg scratch3) .long else [])
    ++ testFlags value size
    ++ locateDest config inst.pcBase inst.dst size
    ++ writeDest (destOf config inst.dst size) value size

def moveData : Fragment :=
  if inst.variant = .quick then moveQuick config inst
  else
    match inst.dst with
    | .addr reg =>
      charge config (4 + addressClocks inst.src inst.size)
        ++ fetchSourceLong config inst.pcBase inst.src inst.size
        ++ mov (sourceLongPlace config inst.src inst.size) (config.addrPlace reg) .long
    | _ => moveGeneral config inst

def leaClocks : Operand → Nat
  | .indirect _ => 4
  | .displaced _ _ => 8
  | .absShort _ => 8
  | .pcDisplaced _ => 8
  | _ => 12

def loadAddress : Fragment :=
  match inst.dst with
  | .addr reg =>
    charge config (leaClocks inst.src)
      ++ addressInto config inst.pcBase inst.src .long scratch1
      ++ mov (.reg scratch1) (config.addrPlace reg) .long
  | _ => []

def pushAddress : Fragment :=
  charge config (leaClocks inst.src)
    ++ addressInto config inst.pcBase inst.src .long scratch1 ++ pushLong config

/-- Push An, point it at the frame, then reserve the frame. The stack pointer itself is pushed
already decremented. -/
def enterFrame : Fragment :=
  match inst.src with
  | .addr reg =>
    let sp := config.addrPlace 7
    charge config 8 ++ alu .sub (.imm 4) sp .long
      ++ mov (config.addrPlace reg) (.reg scratch1) .long
      ++ mov sp (.reg scratch2) .long ++ callWrite .long false
      ++ mov sp (config.addrPlace reg) .long
      ++ alu .add (.imm (inst.dst.immediateValue.getD 0)) sp .long
  | _ => []

def leaveFrame : Fragment :=
  match inst.src with
  | .addr reg =>
    charge config 4 ++ mov (config.addrPlace reg) (config.addrPlace 7) .long ++ popLong config
      ++ mov (.reg scratch1) (config.addrPlace reg) .long
  | _ => []

def registerPlace : Operand → Place
  | .addr reg => config.addrPlace reg
  | .data reg => config.dataPlace reg
  | _ => .reg temp

def exchange : Fragment :=
  let a := registerPlace config inst.src
  let b := registerPlace config inst.dst
  charge config 6 ++ mov a (.reg temp) .long ++ mov b (.reg scratch1) .long
    ++ mov (.reg scratch1) a .long ++ mov (.reg temp) b .long

def swapHalves : Fragment :=
  match inst.dst with
  | .data reg =>
    charge config 4 ++ shiftBy .rol 16 (config.dataPlace reg) .long
      ++ testFlags (config.dataPlace reg) .long
  | _ => []

def extension : Size × Size :=
  if inst.op = .extb then (.byte, .long)
  else if inst.size = .long then (.word, .long)
  else (.byte, .word)

def extendSign : Fragment :=
  match inst.dst with
  | .data reg =>
    let (source, target) := extension inst
    charge config 4 ++ movsx (config.dataPlace reg) temp source target
      ++ mov (.reg temp) (config.dataPlace reg) target
      ++ testFlags (.reg temp) target
  | _ => []

structure ListMove where
  size : Size
  toMemory : Bool
  /-- Addresses run downwards, from the last register to the first. -/
  descending : Bool

/-- One register between a place and the address in the second scratch register, which moves
on. -/
def transferOne (move : ListMove) (slot : Place) : Fragment :=
  let stride := Place.imm move.size.bytes.toUInt32
  let address := Place.reg scratch2
  let value := Place.reg scratch1
  if move.toMemory then
    if move.descending then
      alu .sub stride address .long ++ mov slot value .long ++ callWrite move.size true
    else
      mov slot value .long ++ callWrite move.size false ++ alu .add stride address .long
  else
    mov address value .long ++ callRead move.size
      ++ (if move.size = .word then movsx value scratch1 .word .long else [])
      ++ mov value slot .long ++ alu .add stride address .long

def transferOrder (descending : Bool) : List (Fin 16) :=
  let ascending := (List.range 16).map (Fin.ofNat 16)
  if descending then ascending.reverse else ascending

def transferStraight (move : ListMove) (mask : UInt16) : Fragment :=
  ((transferOrder move.descending).filter fun reg => mask.toNat.testBit reg.val).flatMap
    fun reg => transferOne move (config.generalPlace reg)

def spillMapped : Fragment :=
  config.registerAssignment.mapped.flatMap fun (guest, host) =>
    mov (.reg host) (.slot context (Int32.ofNat (RegisterFile.generalOffset guest))) .long

def reloadMapped : Fragment :=
  config.registerAssignment.mapped.flatMap fun (guest, host) =>
    mov (.slot context (Int32.ofNat (RegisterFile.generalOffset guest))) (.reg host) .long

/-- The list as a loop: the temporary register holds the rest of the mask, the fourth scratch
register points at the register's place in the file. -/
def transferLoop (move : ListMove) (mask : UInt16) : Fragment :=
  let bits := if move.descending then Word.reverse mask else mask
  let first := if move.descending then RegisterFile.generalOffset 15 else 0
  let step := if move.descending then Alu.sub else Alu.add
  let body :=
    transferOne move (.slot scratch4 0)
      ++ (if move.toMemory then [] else reloadMapped config)
  spillMapped config ++ load bits.toUInt32 temp
    ++ lea context (Int32.ofNat first) scratch4
    ++ repeatWhile .notEqual
      (shiftBy .shr 1 (.reg temp) .long ++ skipIf .aboveEqual body
        ++ alu step (.imm 4) (.reg scratch4) .long
        ++ alu .test (.reg temp) (.reg temp) .long)

def listAddress (operand : Operand) : Fragment :=
  match operand with
  | .preDec reg => mov (config.addrPlace reg) (.reg scratch2) .long
  | .postInc reg => mov (config.addrPlace reg) (.reg scratch2) .long
  | _ => addressInto config inst.pcBase operand inst.size scratch2

def listUpdate (operand : Operand) : Fragment :=
  match operand with
  | .preDec reg => mov (.reg scratch2) (config.addrPlace reg) .long
  | .postInc reg => mov (.reg scratch2) (config.addrPlace reg) .long
  | _ => []

/-- Short lists are written out, long ones loop. A load reads one word past its list. -/
def moveList (encoded : UInt16) (operand : Operand) (toMemory : Bool) : Fragment :=
  let mask := normalizeRegList encoded operand.isPreDec
  let move : ListMove := ⟨inst.size, toMemory, operand.isPreDec⟩
  charge config (8 + controlClocks operand) ++ listAddress config inst operand
    ++ (if Word.population mask ≤ config.movemInlineLimit.toNat then
        transferStraight config move mask
      else transferLoop config move mask)
    ++ (if toMemory then []
      else mov (.reg scratch2) (.reg scratch1) .long ++ callRead .word)
    ++ listUpdate config operand

def moveMultiple : Fragment :=
  match inst.src, inst.dst with
  | .regList mask, operand => moveList config inst mask operand true
  | operand, .regList mask => moveList config inst mask operand false
  | _, _ => []

def storePeripheral (dn : Place) (n : Nat) : Fragment :=
  mov dn (.reg scratch1) .long
    ++ (if n = 0 then [] else shiftBy .shr (8 * n) (.reg scratch1) .long)
    ++ callWrite .byte false ++ alu .add (.imm 2) (.reg scratch2) .long

def loadPeripheral : Fragment :=
  mov (.reg scratch2) (.reg scratch1) .long ++ callRead .byte
    ++ shiftBy .shl 8 (.reg scratch4) .long
    ++ alu .or (.reg scratch1) (.reg scratch4) .byte
    ++ alu .add (.imm 2) (.reg scratch2) .long

def peripheralAddress (reg : Fin 8) (disp : Int16) : Fragment :=
  charge config 8 ++ mov (config.addrPlace reg) (.reg scratch2) .long
    ++ alu .add (.imm disp.toInt32.toUInt32) (.reg scratch2) .long

def movePeripheral : Fragment :=
  let bytes := List.range inst.size.bytes
  match inst.src, inst.dst with
  | .data data, .displaced reg disp =>
    peripheralAddress config reg disp
      ++ bytes.reverse.flatMap (storePeripheral (config.dataPlace data))
  | .displaced reg disp, .data data =>
    peripheralAddress config reg disp ++ load 0 scratch4
      ++ bytes.flatMap (fun _ => loadPeripheral)
      ++ mov (.reg scratch4) (config.dataPlace data) inst.size
  | _, _ => []

end Dynarec68k.Codegen
