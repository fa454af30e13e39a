import Dynarec68k.Codegen.Fragment
import Dynarec68k.Isa.Instruction

/-!
Operands in generated code. A source in memory is read into the third scratch register, so that
the destination can be worked out after it. A destination in memory keeps its address in the
second scratch register; its old value is read into the first, changed there and written back.
-/

namespace Dynarec68k.Codegen

open Host Role

variable (config : Config)

def addressClocks (operand : Operand) (size : Size) : Nat :=
  match operand with
  | .preDec _ => 2
  | .displaced _ _ => 4
  | .absShort _ => 4
  | .pcDisplaced _ => 4
  | .indexed _ _ _ => 6
  | .pcIndexed _ _ => 6
  | .absLong _ => 8
  | .full _ _ => 8
  | .pcFull _ => 8
  | .immediate _ => if size = .long then 8 else 4
  | _ => 0

/-- The same for register lists and for the destination of MOVE, where a predecrement is free. -/
def controlClocks (operand : Operand) : Nat :=
  if operand.isPreDec then 0 else addressClocks operand .word

def isRegisterOrImmediate (operand : Operand) : Bool :=
  operand.isRegister || operand.isImmediate

/-- How far an increment or decrement moves An. The stack pointer stays even. -/
def stride (reg : Fin 8) (size : Size) : UInt32 :=
  if reg = 7 ∧ size = .byte then 2 else size.bytes.toUInt32

def addDisplacement (disp : Int32) (dst : Reg) : Fragment :=
  if disp = 0 then [] else alu .add (.imm disp.toUInt32) (.reg dst) .long

def scaleIndex (shift : Fin 4) : Fragment :=
  if shift = 0 then [] else shiftBy .shl shift.val (.reg temp) .long

def addIndex (index : IndexReg) (dst : Reg) : Fragment :=
  let register := config.generalPlace index.reg
  (if index.long then mov register (.reg temp) .long
    else movsx register temp .word .long)
    ++ scaleIndex index.shift ++ alu .add (.reg temp) (.reg dst) .long

def addIndex? (index : Option IndexReg) (dst : Reg) : Fragment :=
  match index with
  | some index => addIndex config index dst
  | none => []

/-- Full extension words. The address is built in the first scratch register, because an
indirection reads through it. -/
def fullAddress (base : Place) (full : FullIndex) (dst : Reg) : Fragment :=
  mov (if full.baseSuppressed then .imm 0 else base) (.reg scratch1) .long
    ++ addDisplacement full.baseDisp scratch1
    ++ (match full.memory with
      | .none => addIndex? config full.index scratch1
      | .preIndexed outer =>
        addIndex? config full.index scratch1 ++ callRead .long
          ++ addDisplacement outer scratch1
      | .postIndexed outer =>
        callRead .long ++ addIndex? config full.index scratch1
          ++ addDisplacement outer scratch1)
    ++ (if dst = scratch1 then [] else mov (.reg scratch1) (.reg dst) .long)

/-- The effective address of a memory operand to a register, with the change it makes to An.
Other operands have none. -/
def addressInto (pcBase : UInt32) (operand : Operand) (size : Size) (dst : Reg) : Fragment :=
  match operand with
  | .indirect reg => mov (config.addrPlace reg) (.reg dst) .long
  | .postInc reg =>
    mov (config.addrPlace reg) (.reg dst) .long
      ++ alu .add (.imm (stride reg size)) (config.addrPlace reg) .long
  | .preDec reg =>
    alu .sub (.imm (stride reg size)) (config.addrPlace reg) .long
      ++ mov (config.addrPlace reg) (.reg dst) .long
  | .displaced reg disp =>
    mov (config.addrPlace reg) (.reg dst) .long ++ addDisplacement disp.toInt32 dst
  | .indexed reg index disp =>
    mov (config.addrPlace reg) (.reg dst) .long ++ addIndex config index dst
      ++ addDisplacement disp.toInt32 dst
  | .full reg full => fullAddress config (config.addrPlace reg) full dst
  | .absShort address => load address dst
  | .absLong address => load address dst
  | .pcDisplaced disp => load (pcBase + disp.toUInt32) dst
  | .pcIndexed index disp => load (pcBase + disp.toUInt32) dst ++ addIndex config index dst
  | .pcFull full => fullAddress config (.imm pcBase) full dst
  | _ => []

def sourcePlace (operand : Operand) (size : Size) : Place :=
  match operand with
  | .data reg => config.dataPlace reg
  | .addr reg => config.addrPlace reg
  | .immediate value => .imm (value &&& size.mask)
  | _ => .reg scratch3

def fetchSource (pcBase : UInt32) (operand : Operand) (size : Size) : Fragment :=
  match operand with
  | .data _ => []
  | .addr _ => []
  | .immediate _ => []
  | _ =>
    addressInto config pcBase operand size scratch1 ++ callRead size
      ++ mov (.reg scratch1) (.reg scratch3) .long

def sourceLongPlace (operand : Operand) (size : Size) : Place :=
  match size, sourcePlace config operand size with
  | .long, place => place
  | size, .imm value => .imm (size.signExtend value)
  | _, _ => .reg scratch1

def fetchSourceLong (pcBase : UInt32) (operand : Operand) (size : Size) : Fragment :=
  fetchSource config pcBase operand size
    ++ (match size, sourcePlace config operand size with
      | .long, _ => []
      | _, .imm _ => []
      | size, place => movsx place scratch1 size .long)

inductive Dest where
  /-- A register or an immediate, used where it is. -/
  | place (place : Place)
  /-- Memory at the address in the second scratch register. -/
  | memory (lowFirst : Bool)
  deriving DecidableEq, Repr

def destOf (operand : Operand) (size : Size) : Dest :=
  match operand with
  | .data reg => .place (config.dataPlace reg)
  | .addr reg => .place (config.addrPlace reg)
  | .immediate value => .place (.imm (value &&& size.mask))
  | _ => .memory operand.isPreDec

def locateDest (pcBase : UInt32) (operand : Operand) (size : Size) : Fragment :=
  addressInto config pcBase operand size scratch2

def Dest.value : Dest → Place
  | .place used => used
  | .memory _ => .reg scratch1

def readDest (dest : Dest) (size : Size) : Fragment :=
  match dest with
  | .place _ => []
  | .memory _ => mov (.reg scratch2) (.reg scratch1) .long ++ callRead size

def writeDest (dest : Dest) (value : Place) (size : Size) : Fragment :=
  match dest with
  | .place place => if place = value then [] else mov value place size
  | .memory lowFirst =>
    (if value = .reg scratch1 then [] else mov value (.reg scratch1) .long)
      ++ callWrite size lowFirst

end Dynarec68k.Codegen
