import Dynarec68k.Codegen.Arithmetic

namespace Dynarec68k.Codegen

open Host Role

variable (config : Config) (inst : Instruction)

/-- Data registers are handled as longs, memory as bytes. -/
def bitSize (operand : Operand) : Size :=
  if operand.isDataRegister then .long else .byte

def bitOp : Op → BitOp
  | .btst => .test
  | .bchg => .change
  | .bclr => .reset
  | _ => .set

def bitClocks : Nat :=
  if inst.dst.isDataRegister then
    match inst.op with
    | .btst => 6
    | .bclr => 10
    | _ => 8
  else 4 + addressClocks inst.dst .byte

/-- Clocks with the bit number known. Changing a bit of the low word takes less. -/
def staticBitClocks (number : UInt32) : Nat :=
  bitClocks inst
    + (if inst.dst.isDataRegister ∧ inst.op ≠ .btst ∧ number < 16 then 2 else 4)

/-- Z is the complement of the old bit. -/
def bitAt (number : Place) : Fragment :=
  let size := bitSize inst.dst
  let dest := destOf config inst.dst size
  locateDest config inst.pcBase inst.dst size ++ readDest dest size
    ++ bit (bitOp inst.op) number dest.value size ++ setTest .aboveEqual (flagPlace .z)
    ++ (if inst.op = .btst then [] else writeDest dest dest.value size)

def bitInstruction : Fragment :=
  match inst.src with
  | .immediate value =>
    let number := value % (bitSize inst.dst).width.toUInt32
    charge config (staticBitClocks inst number) ++ bitAt config inst (.imm number)
  | .data reg => charge config (bitClocks inst) ++ bitAt config inst (config.dataPlace reg)
  | _ => []

def hostShift : Op → Shift
  | .asl => .shl
  | .lsl => .shl
  | .asr => .sar
  | .lsr => .shr
  | .rol => .rol
  | .ror => .ror
  | .roxl => .rcl
  | _ => .rcr

def rotatesExtend (op : Op) : Bool :=
  op = .roxl || op = .roxr

def keepsExtend (op : Op) : Bool :=
  op = .rol || op = .ror

/-- One place to the left: C from the bit shifted out, overflow collected in the fourth scratch
register whenever the sign changes. -/
def aslStep (value : Place) (size : Size) : Fragment :=
  shiftBy .shl 1 value size ++ setTest .below (flagPlace .c)
    ++ setTest .overflow (.reg scratch3)
    ++ alu .or (.reg scratch3) (.reg scratch4) .byte

def finishAsl (value : Place) (size : Size) : Fragment :=
  movzx (flagPlace .c) scratch3 .byte .long ++ mov (.reg scratch3) (flagPlace .x) .byte
    ++ alu .cmp (.imm 0) value size ++ setFlags FlagUpdates.shiftedSigned
    ++ mov (.reg scratch4) (flagPlace .v) .byte

def shiftResult (value : Place) (size : Size) : Fragment :=
  alu .cmp (.imm 0) value size ++ setFlags FlagUpdates.shifted

def shiftThrough (op : Op) (count : Count) (value : Place) (size : Size) : Fragment :=
  (if rotatesExtend op then loadExtend else [])
    ++ [.op (.shift (hostShift op) count value size)]
    ++ setTest .below (flagPlace .c)
    ++ (if keepsExtend op then [] else setTest .below (flagPlace .x))
    ++ shiftResult value size

def shiftStatic (op : Op) (count : Nat) (value : Place) (size : Size) : Fragment :=
  if op = .asl then
    load 0 scratch4 ++ (List.replicate count (aslStep value size)).flatten
      ++ finishAsl value size
  else shiftThrough op (.imm count.toUInt8) value size

/-- The low six bits of a count to the temporary register, at two clocks for each place. -/
def loadCount (count : Place) : Fragment :=
  mov count (.reg temp) .long ++ alu .and (.imm 63) (.reg temp) .long
    ++ mov (.reg temp) (.reg scratch4) .long
    ++ shiftBy .shl 1 (.reg scratch4) .long
    ++ (List.replicate config.clockDivider.toNat
        (alu .add (.reg scratch4) (.reg cycles) .long)).flatten
    ++ alu .test (.reg temp) (.reg temp) .long

/-- Flags of a shift by no place: C is X for rotates through X and cleared otherwise. -/
def shiftByZero (op : Op) (value : Place) (size : Size) : Fragment :=
  (if rotatesExtend op then
      movzx (flagPlace .x) scratch4 .byte .long
        ++ mov (.reg scratch4) (flagPlace .c) .byte
    else setFlag .c false)
    ++ shiftResult value size

def shiftCounted (op : Op) (value : Place) (size : Size) : Fragment :=
  if op = .asl then
    load 0 scratch4
      ++ repeatWhile .notEqual (aslStep value size ++ alu .sub (.imm 1) (.reg temp) .long)
      ++ finishAsl value size
  else shiftThrough op (.reg temp) value size

def shiftDynamic (op : Op) (count value : Place) (size : Size) : Fragment :=
  let zero := shiftByZero op value size
  loadCount config count ++ jumpOverIf .notEqual (zero.length + 1) ++ zero
    ++ skip (shiftCounted op value size)

def shiftInstruction : Fragment :=
  let base := if inst.size = .long then 8 else 6
  match inst.dst, inst.src with
  | .data reg, .immediate count =>
    charge config (base + 2 * count.toNat)
      ++ shiftStatic inst.op count.toNat (config.dataPlace reg) inst.size
  | .data reg, .data count =>
    charge config base
      ++ shiftDynamic config inst.op (config.dataPlace count) (config.dataPlace reg) inst.size
  | dst, _ =>
    if dst.isMemory then
      charge config (4 + addressClocks dst .word)
        ++ modify config inst .word fun value => shiftStatic inst.op 1 value .word
    else []

end Dynarec68k.Codegen
