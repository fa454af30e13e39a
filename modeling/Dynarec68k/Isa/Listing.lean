import Dynarec68k.Isa.Instruction

namespace Dynarec68k

namespace BitFieldOp

def mnemonic : BitFieldOp → String
  | .tst => "bftst"
  | .extu => "bfextu"
  | .chg => "bfchg"
  | .exts => "bfexts"
  | .clr => "bfclr"
  | .ffo => "bfffo"
  | .set => "bfset"
  | .ins => "bfins"

end BitFieldOp

namespace Op

def mnemonic : Op → String
  | .abcd => "abcd"
  | .add => "add"
  | .addx => "addx"
  | .and => "and"
  | .andiCcr => "andi"
  | .andiSr => "andi"
  | .asl => "asl"
  | .asr => "asr"
  | .bcc => "b"
  | .bchg => "bchg"
  | .bclr => "bclr"
  | .bset => "bset"
  | .bsr => "bsr"
  | .btst => "btst"
  | .chk => "chk"
  | .clr => "clr"
  | .cmp => "cmp"
  | .dbcc => "db"
  | .divs => "divs"
  | .divu => "divu"
  | .eor => "eor"
  | .eoriCcr => "eori"
  | .eoriSr => "eori"
  | .exg => "exg"
  | .ext => "ext"
  | .illegal => "illegal"
  | .jmp => "jmp"
  | .jsr => "jsr"
  | .lea => "lea"
  | .link => "link"
  | .lsl => "lsl"
  | .lsr => "lsr"
  | .move => "move"
  | .moveCcr => "move"
  | .moveFromSr => "move"
  | .moveSr => "move"
  | .moveUsp => "move"
  | .movem => "movem"
  | .movep => "movep"
  | .muls => "muls"
  | .mulu => "mulu"
  | .nbcd => "nbcd"
  | .neg => "neg"
  | .negx => "negx"
  | .nop => "nop"
  | .not => "not"
  | .or => "or"
  | .oriCcr => "ori"
  | .oriSr => "ori"
  | .pea => "pea"
  | .reset => "reset"
  | .rol => "rol"
  | .ror => "ror"
  | .roxl => "roxl"
  | .roxr => "roxr"
  | .rte => "rte"
  | .rtr => "rtr"
  | .rts => "rts"
  | .sbcd => "sbcd"
  | .scc => "s"
  | .stop => "stop"
  | .sub => "sub"
  | .subx => "subx"
  | .swap => "swap"
  | .tas => "tas"
  | .trap => "trap"
  | .trapv => "trapv"
  | .tst => "tst"
  | .unlk => "unlk"
  | .lineA => "line_a"
  | .lineF => "line_f"
  | .invalid => "invalid"
  | .moveFromCcr => "move"
  | .rtd => "rtd"
  | .bkpt => "bkpt"
  | .movec => "movec"
  | .moves => "moves"
  | .extb => "extb"
  | .trapcc => "trap"
  | .mulLong => "mul"
  | .divLong => "div"
  | .bitField op => op.mnemonic
  | .cas => "cas"
  | .chk2 => "chk2"
  | .pack => "pack"
  | .unpk => "unpk"

def hidesSize : Op → Bool
  | .lea => true
  | .pea => true
  | .exg => true
  | .swap => true
  | .stop => true
  | _ => false

end Op

namespace IndexReg

/-- Register and width, as in `a3.l`. -/
def registerText (index : IndexReg) : String :=
  let bank := if index.isAddress then "a" else "d"
  let width := if index.long then "l" else "w"
  s!"{bank}{index.number}.{width}"

/-- A scale of one is left out. -/
def text (index : IndexReg) : String :=
  if index.shift = 0 then index.registerText else s!"{index.registerText}*{index.scale}"

/-- In full extension words the scale is always written. -/
def scaledText (index : IndexReg) : String :=
  s!"{index.registerText}*{index.scale}"

end IndexReg

namespace FullIndex

def text (full : FullIndex) (base : String) : String :=
  let disp := if full.baseDisp = 0 then [] else [Hex.signed full.baseDisp.toInt]
  let register := if full.baseSuppressed then [] else [base]
  let index := full.index.toList.map IndexReg.scaledText
  match full.memory with
  | .none => "(" ++ ",".intercalate (disp ++ register ++ index) ++ ")"
  | .preIndexed outer =>
      "([" ++ ",".intercalate (disp ++ register ++ index) ++ "]," ++ Hex.signed outer.toInt ++ ")"
  | .postIndexed outer =>
      "(" ++ ",".intercalate
        (["[" ++ ",".intercalate (disp ++ register) ++ "]"] ++ index ++ [Hex.signed outer.toInt])
        ++ ")"

end FullIndex

namespace RegList

def registerName (reg : Nat) : String :=
  if reg < 8 then s!"d{reg}" else s!"a{reg - 8}"

/-- The set bits of a mask as runs of consecutive registers. A run ends with its bank. -/
def runs (mask : UInt16) : List (Nat × Nat) :=
  (List.range 16).foldr (fun reg later =>
    if mask.toNat.testBit reg then
      match later with
      | (first, last) :: rest =>
          if first = reg + 1 ∧ first ≠ 8 then (reg, last) :: rest else (reg, reg) :: later
      | [] => [(reg, reg)]
    else later) []

/-- Registers as in `d0-d2/a6`; bit 0 of the mask is D0. -/
def text (mask : UInt16) : String :=
  "/".intercalate ((runs mask).map fun (first, last) =>
    if first = last then registerName first
    else registerName first ++ "-" ++ registerName last)

end RegList

def controlRegisterName (number : UInt16) : String :=
  match number.toNat with
  | 0x000 => "sfc"
  | 0x001 => "dfc"
  | 0x002 => "cacr"
  | 0x800 => "usp"
  | 0x801 => "vbr"
  | 0x802 => "caar"
  | 0x803 => "msp"
  | 0x804 => "isp"
  | n => "cr$" ++ Hex.upper n

def FieldParam.text : FieldParam → String
  | .immediate n => toString n
  | .data reg => s!"d{reg.val}"

namespace Operand

/-- Operand text; targets relative to the program counter count from `pcBase`, and `reversed`
says that a register list is encoded in reverse. -/
def text (operand : Operand) (pcBase : UInt32) (reversed : Bool) : String :=
  match operand with
  | .none => ""
  | .data reg => s!"d{reg.val}"
  | .addr reg => s!"a{reg.val}"
  | .indirect reg => s!"(a{reg.val})"
  | .postInc reg => s!"(a{reg.val})+"
  | .preDec reg => s!"-(a{reg.val})"
  | .displaced reg disp => s!"{Hex.signed disp.toInt}(a{reg.val})"
  | .indexed reg index disp => s!"{Hex.signed disp.toInt}(a{reg.val},{index.text})"
  | .full reg ext => ext.text s!"a{reg.val}"
  | .absShort address => s!"(${Hex.upper (address.toNat % 65536)}).w"
  | .absLong address => s!"(${Hex.upper address.toNat}).l"
  | .pcDisplaced disp => s!"${Hex.upper (pcBase + disp.toUInt32).toNat}(pc)"
  | .pcIndexed index disp =>
      s!"${Hex.upper (pcBase + disp.toUInt32).toNat}(pc,{index.text})"
  | .pcFull ext => ext.text "pc"
  | .immediate value => s!"#${Hex.upper value.toNat}"
  | .displacement disp => s!"${Hex.upper (pcBase + disp.toUInt32).toNat}"
  | .regList mask => RegList.text (normalizeRegList mask reversed)
  | .regPair primary secondary => s!"d{primary.val}:d{secondary.val}"
  | .ccr => "ccr"
  | .sr => "sr"
  | .usp => "usp"
  | .control number => controlRegisterName number
  | .bitField offset width => "\x7b" ++ offset.text ++ ":" ++ width.text ++ "\x7d"

end Operand

namespace Instruction

/-- Letter for the quick, immediate, address-register and memory-to-memory forms. -/
def formLetter (inst : Instruction) : String :=
  let summing := inst.op = .add || inst.op = .sub
  let immediates := summing || inst.op = .or || inst.op = .and || inst.op = .eor || inst.op = .cmp
  if inst.variant = .quick && (summing || inst.op = .move) then "q"
  else if inst.variant = .immediate && immediates then "i"
  else if inst.dst.isAddressRegister && (summing || inst.op = .cmp || inst.op = .move) then "a"
  else if inst.op = .cmp && inst.src.isPostInc && inst.dst.isPostInc then "m"
  else ""

def extraText (inst : Instruction) : String :=
  match inst.extra with
  | .cond .always => if inst.op = .bcc then "ra" else "t"
  | .cond condition => condition.name
  | .size size =>
      inst.formLetter ++ (if inst.op.hidesSize then "" else s!".{size.suffix}")
  | .none => ""

def variantText (inst : Instruction) : String :=
  match inst.variant with
  | .byte => ".s"
  | .long => if inst.op = .trapcc then "" else ".l"
  | _ => ""

/-- Source before destination, but the counter of a counted branch before its target. -/
def operandText (inst : Instruction) : String :=
  let show1 (operand : Operand) := operand.text inst.pcBase inst.dst.isPreDec
  match inst.src, inst.dst with
  | .none, .none => ""
  | src, dst =>
      if inst.op = .dbcc then s!" {show1 dst},{show1 src}"
      else if dst = .none then s!" {show1 src}"
      else if src = .none then s!" {show1 dst}"
      else s!" {show1 src},{show1 dst}"

def listing (inst : Instruction) : String :=
  inst.op.mnemonic ++ inst.extraText ++ inst.variantText ++ inst.operandText

end Instruction

end Dynarec68k
