import Dynarec68k.Isa.Decode
import Mathlib.Algebra.Ring.Nat

namespace Dynarec68k

variable (w : UInt16) (n : Nat) (b : UInt8)

namespace Word

theorem val_field2 : (field2 w n).val = w.toNat / 2 ^ n % 4 := by
  simp [field2, Nat.shiftRight_eq_div_pow]

theorem val_field3 : (field3 w n).val = w.toNat / 2 ^ n % 8 := by
  simp [field3, Nat.shiftRight_eq_div_pow]

theorem val_field4 : (field4 w n).val = w.toNat / 2 ^ n % 16 := by
  simp [field4, Nat.shiftRight_eq_div_pow]

theorem bit_eq : bit w n = decide (w.toNat / 2 ^ n % 2 = 1) :=
  Nat.testBit_eq_decide_div_mod_eq

theorem and_upper {n k : Nat} (h : n < 2 ^ 16) (hk : k ≤ 16) :
    n &&& (2 ^ (16 - k) - 1) <<< k = n / 2 ^ k * 2 ^ k := by
  apply Nat.eq_of_testBit_eq
  intro i
  rw [Nat.testBit_and, Nat.testBit_shiftLeft, Nat.testBit_two_pow_sub_one, Nat.testBit_mul_two_pow,
    Nat.testBit_div_two_pow]
  by_cases hlow : k ≤ i
  · by_cases hhigh : i < 16
    · simp [hlow, show i - k < 16 - k by omega]
    · have hclear : n.testBit i = false :=
        Nat.testBit_lt_two_pow (Nat.lt_of_lt_of_le h (Nat.pow_le_pow_right (by decide) (by omega)))
      simp [hlow, hclear]
  · simp [hlow]

theorem toNat_and_FFC0 : (w &&& 0xFFC0).toNat = w.toNat / 64 * 64 :=
  (UInt16.toNat_and w 0xFFC0).trans (and_upper (k := 6) w.toNat_lt (by decide))

theorem toNat_and_FFF0 : (w &&& 0xFFF0).toNat = w.toNat / 16 * 16 :=
  (UInt16.toNat_and w 0xFFF0).trans (and_upper (k := 4) w.toNat_lt (by decide))

theorem toNat_and_FF : (w &&& 0xFF).toNat = w.toNat % 256 :=
  (UInt16.toNat_and w 0xFF).trans (Nat.and_two_pow_sub_one_eq_mod _ 8)

theorem toNat_and_F : (w &&& 0xF).toNat = w.toNat % 16 :=
  (UInt16.toNat_and w 0xF).trans (Nat.and_two_pow_sub_one_eq_mod _ 4)

theorem toUInt8_extended : b.toInt8.toInt32.toUInt32.toUInt8 = b := by
  apply UInt8.toBitVec_inj.mp
  change (b.toBitVec.signExtend 32).setWidth 8 = b.toBitVec
  ext i hi
  rw [BitVec.getElem_setWidth, BitVec.getLsbD_signExtend]
  simp [hi, show i < 32 by omega]

theorem extended_mod : b.toInt8.toInt32.toUInt32.toNat % 256 = b.toNat := by
  have hbyte := congrArg UInt8.toNat (toUInt8_extended b)
  rwa [UInt32.toNat_toUInt8] at hbyte

end Word

namespace Operand

/-- The effective-address field, zero for operands without one. -/
def field (operand : Operand) : Nat :=
  operand.eaBits.getD 0

/-- The register field of an effective address. -/
def register (operand : Operand) : Nat :=
  match operand.modeReg with
  | some (_, reg) => reg.val
  | Option.none => 0

/-- The value of an immediate. -/
def literal (operand : Operand) : Nat :=
  match operand with
  | .immediate value => value.toNat
  | _ => 0

/-- Bit 3 of the opcode word of a pair of registers, set for a pair of predecrements. -/
def pairBit (operand : Operand) : Nat :=
  if operand.isPreDec then 8 else 0

end Operand

namespace Extra

def sizeBits : Extra → Nat
  | .size s => s.bits.val
  | _ => 0

/-- The size field of MOVE, out of range for want of a size. -/
def moveBits : Extra → Nat
  | .size s => s.moveBits.val
  | _ => 16

def conditionBits : Extra → Nat
  | .cond condition => condition.bits.val
  | _ => 0

/-- Whether the size is a long, as a bit. -/
def longBit : Extra → Nat
  | .size .long => 1
  | _ => 0

end Extra

namespace BitFieldOp

def bits : BitFieldOp → Nat
  | .tst => 0
  | .extu => 1
  | .chg => 2
  | .exts => 3
  | .clr => 4
  | .ffo => 5
  | .set => 6
  | .ins => 7

end BitFieldOp

namespace Form

def operandWord (base reg operand : Nat) : Nat :=
  base + 512 * reg + operand

/-- The immediate forms of line 0. -/
def immediateWord (form : Form) (base : Nat) : Nat :=
  base + 64 * form.extra.sizeBits + form.dst.field

/-- ADDQ and SUBQ. -/
def quickWord (form : Form) (base : Nat) : Nat :=
  operandWord base (form.src.literal % 8) (64 * form.extra.sizeBits + form.dst.field)

def addressWord (form : Form) (line : Nat) : Nat :=
  operandWord line form.dst.register (192 + 256 * form.extra.longBit + form.src.field)

/-- A data register with an operand, in either direction, or an address register. -/
def registerWord (form : Form) (line : Nat) : Nat :=
  if form.dst.isAddressRegister then form.addressWord line
  else if form.dst.isDataRegister then
    operandWord line form.dst.register (64 * form.extra.sizeBits + form.src.field)
  else operandWord line form.src.register (256 + 64 * form.extra.sizeBits + form.dst.field)

/-- Two-operand arithmetic and logic by variant. -/
def binaryWord (form : Form) (line immediate quick : Nat) : Nat :=
  match form.variant with
  | .immediate => form.immediateWord immediate
  | .quick => form.quickWord quick
  | _ => form.registerWord line

/-- CMP to registers, CMPM and CMPI. -/
def compareWord (form : Form) : Nat :=
  if form.variant = .immediate then form.immediateWord 0x0C00
  else if form.dst.isPostInc then
    operandWord 0xB108 form.dst.register (64 * form.extra.sizeBits + form.src.register)
  else form.registerWord 0xB000

/-- Multi-precision pairs. -/
def chainedWord (form : Form) (base : Nat) : Nat :=
  operandWord base form.dst.register (form.src.pairBit + form.src.register)

def productWord (form : Form) (base : Nat) : Nat :=
  operandWord base form.dst.register form.src.field

/-- Single bits, their number in a register or in an extension word. -/
def bitWord (form : Form) (kind : Nat) : Nat :=
  if form.variant = .immediate then 0x0800 + 64 * kind + form.dst.field
  else operandWord 0x0100 form.src.register (64 * kind + form.dst.field)

/-- Shifts of memory, and of a register by a register or a number. -/
def shiftWord (form : Form) (kind left : Nat) : Nat :=
  match form.src with
  | .none => 0xE0C0 + 512 * kind + 256 * left + form.dst.field
  | .immediate count =>
    operandWord (0xE000 + 256 * left) (count.toNat % 8)
      (64 * form.extra.sizeBits + 8 * kind + form.dst.register)
  | _ =>
    operandWord (0xE020 + 256 * left) form.src.register
      (64 * form.extra.sizeBits + 8 * kind + form.dst.register)

/-- The low byte of a branch. -/
def displacementByte (form : Form) : Nat :=
  match form.variant, form.src with
  | .byte, .displacement disp => disp.toUInt32.toNat % 256
  | .long, _ => 255
  | _, _ => 0

def exchangeWord (form : Form) : Nat :=
  let base :=
    if form.src.isAddressRegister then 0xC148
    else if form.dst.isAddressRegister then 0xC188
    else 0xC140
  operandWord base form.src.register form.dst.register

def moveWord (form : Form) : Nat :=
  if form.variant = .quick then operandWord 0x7000 form.dst.register (form.src.literal % 256)
  else
    4096 * form.extra.moveBits + 512 * form.dst.register + 8 * (form.dst.field - form.dst.register)
      + form.src.field

def listWord (form : Form) : Nat :=
  if form.src.isMemory then 0x4C80 + 64 * form.extra.longBit + form.src.field
  else 0x4880 + 64 * form.extra.longBit + form.dst.field

def peripheralWord (form : Form) : Nat :=
  match form.dst with
  | .displaced _ _ =>
    operandWord 0x0188 form.src.register (64 * form.extra.longBit + form.dst.register)
  | _ => operandWord 0x0108 form.dst.register (64 * form.extra.longBit + form.src.register)

/-- MOVES, whichever of its operands is in memory. -/
def spaceWord (form : Form) : Nat :=
  if form.dst.isMemory then form.immediateWord 0x0E00
  else 0x0E00 + 64 * form.extra.sizeBits + form.src.field

/-- The register field of TRAPcc tells how long its operand is. -/
def trapBits (form : Form) : Nat :=
  match form.variant with
  | .word => 2
  | .long => 3
  | _ => 4

theorem eq_iff {form form' : Form} :
    form = form' ↔ form.op = form'.op ∧ form.variant = form'.variant ∧ form.extra = form'.extra ∧
      form.src = form'.src ∧ form.dst = form'.dst := by
  cases form
  cases form'
  exact Form.mk.injEq .. ▸ Iff.rfl

/-- The opcode word, written from everything a form holds. -/
def opcode (form : Form) : Nat :=
  match form.op with
  | .abcd => form.chainedWord 0xC100
  | .sbcd => form.chainedWord 0x8100
  | .addx => form.chainedWord (0xD100 + 64 * form.extra.sizeBits)
  | .subx => form.chainedWord (0x9100 + 64 * form.extra.sizeBits)
  | .pack => form.chainedWord 0x8140
  | .unpk => form.chainedWord 0x8180
  | .add => form.binaryWord 0xD000 0x0600 0x5000
  | .sub => form.binaryWord 0x9000 0x0400 0x5100
  | .and => form.binaryWord 0xC000 0x0200 0
  | .or => form.binaryWord 0x8000 0x0000 0
  | .eor =>
    if form.variant = .immediate then form.immediateWord 0x0A00
    else operandWord 0xB100 form.src.register (64 * form.extra.sizeBits + form.dst.field)
  | .cmp => form.compareWord
  | .andiCcr => 0x023C
  | .andiSr => 0x027C
  | .oriCcr => 0x003C
  | .oriSr => 0x007C
  | .eoriCcr => 0x0A3C
  | .eoriSr => 0x0A7C
  | .asr => form.shiftWord 0 0
  | .asl => form.shiftWord 0 1
  | .lsr => form.shiftWord 1 0
  | .lsl => form.shiftWord 1 1
  | .roxr => form.shiftWord 2 0
  | .roxl => form.shiftWord 2 1
  | .ror => form.shiftWord 3 0
  | .rol => form.shiftWord 3 1
  | .bcc => 0x6000 + 256 * form.extra.conditionBits + form.displacementByte
  | .bsr => 0x6100 + form.displacementByte
  | .btst => form.bitWord 0
  | .bchg => form.bitWord 1
  | .bclr => form.bitWord 2
  | .bset => form.bitWord 3
  | .chk => form.productWord (0x4180 - 128 * form.extra.longBit)
  | .negx => form.immediateWord 0x4000
  | .clr => form.immediateWord 0x4200
  | .neg => form.immediateWord 0x4400
  | .not => form.immediateWord 0x4600
  | .tst => form.immediateWord 0x4A00
  | .dbcc => 0x50C8 + 256 * form.extra.conditionBits + form.dst.register
  | .scc => 0x50C0 + 256 * form.extra.conditionBits + form.dst.field
  | .trapcc => 0x50F8 + 256 * form.extra.conditionBits + form.trapBits
  | .divu => form.productWord 0x80C0
  | .divs => form.productWord 0x81C0
  | .mulu => form.productWord 0xC0C0
  | .muls => form.productWord 0xC1C0
  | .exg => form.exchangeWord
  | .ext => 0x4880 + 64 * form.extra.longBit + form.dst.register
  | .extb => 0x49C0 + form.dst.register
  | .swap => 0x4840 + form.dst.register
  | .lea => form.productWord 0x41C0
  | .pea => 0x4840 + form.src.field
  | .jsr => 0x4E80 + form.src.field
  | .jmp => 0x4EC0 + form.src.field
  | .link => (if form.extra.longBit = 1 then 0x4808 else 0x4E50) + form.src.register
  | .unlk => 0x4E58 + form.src.register
  | .move => form.moveWord
  | .moveFromSr => 0x40C0 + form.dst.field
  | .moveFromCcr => 0x42C0 + form.dst.field
  | .moveCcr => 0x44C0 + form.src.field
  | .moveSr => 0x46C0 + form.src.field
  | .moveUsp =>
    if form.src = .usp then 0x4E68 + form.dst.register else 0x4E60 + form.src.register
  | .movem => form.listWord
  | .movep => form.peripheralWord
  | .moves => form.spaceWord
  | .movec =>
    match form.dst with
    | .control _ => 0x4E7B
    | _ => 0x4E7A
  | .nbcd => 0x4800 + form.dst.field
  | .tas => 0x4AC0 + form.dst.field
  | .illegal => 0x4AFC
  | .reset => 0x4E70
  | .nop => 0x4E71
  | .stop => 0x4E72
  | .rte => 0x4E73
  | .rtd => 0x4E74
  | .rts => 0x4E75
  | .trapv => 0x4E76
  | .rtr => 0x4E77
  | .trap => 0x4E40 + form.src.literal
  | .bkpt => 0x4848 + form.src.literal
  | .mulLong => 0x4C00 + form.src.field
  | .divLong => 0x4C40 + form.src.field
  | .bitField op => 0xE8C0 + 256 * op.bits + form.dst.field
  | .cas => 0x0AC0 + 512 * form.extra.sizeBits + form.dst.field
  | .chk2 => 0x00C0 + 512 * form.extra.sizeBits + form.src.field
  | .lineA => form.src.literal
  | .lineF => form.src.literal
  | .invalid => form.src.literal

end Form

namespace Operand

theorem field_register {operand : Operand} {mode reg : Fin 8}
    (h : operand.modeReg = some (mode, reg)) :
    operand.field = 8 * mode.val + reg.val ∧ operand.register = reg.val := by
  simp only [field, eaBits, register, h, Option.map_some, Option.getD_some, and_self]

theorem field_bounds (operand : Operand) :
    operand.register ≤ 7 ∧ operand.field ≤ 63 ∧ operand.field - operand.register ≤ 56 := by
  cases h : operand.modeReg with
  | none => simp [register, field, eaBits, h]
  | some fields =>
    obtain ⟨mode, reg⟩ := fields
    obtain ⟨hfield, hregister⟩ := field_register h
    omega

end Operand

end Dynarec68k
