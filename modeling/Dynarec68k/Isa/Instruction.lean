import Dynarec68k.Isa.Condition
import Dynarec68k.Isa.Operand
import Dynarec68k.Isa.Size

namespace Dynarec68k

inductive BitFieldOp where
  | tst
  | extu
  | chg
  | exts
  | clr
  | ffo
  | set
  | ins
  deriving DecidableEq, Repr

/-- Operations. Immediate, quick and address-register forms share one operation and differ in
`Variant` and in their operands. -/
inductive Op where
  | abcd
  | add
  | addx
  | and
  | andiCcr
  | andiSr
  | asl
  | asr
  | bcc
  | bchg
  | bclr
  | bset
  | bsr
  | btst
  | chk
  | clr
  | cmp
  | dbcc
  | divs
  | divu
  | eor
  | eoriCcr
  | eoriSr
  | exg
  | ext
  | illegal
  | jmp
  | jsr
  | lea
  | link
  | lsl
  | lsr
  | move
  | moveCcr
  | moveFromSr
  | moveSr
  | moveUsp
  | movem
  | movep
  | muls
  | mulu
  | nbcd
  | neg
  | negx
  | nop
  | not
  | or
  | oriCcr
  | oriSr
  | pea
  | reset
  | rol
  | ror
  | roxl
  | roxr
  | rte
  | rtr
  | rts
  | sbcd
  | scc
  | stop
  | sub
  | subx
  | swap
  | tas
  | trap
  | trapv
  | tst
  | unlk
  | lineA
  | lineF
  | invalid
  | moveFromCcr
  | rtd
  | bkpt
  | movec
  | moves
  | extb
  | trapcc
  | mulLong
  | divLong
  | bitField (op : BitFieldOp)
  | cas
  | chk2
  | pack
  | unpk
  deriving DecidableEq, Repr

inductive Variant where
  | normal
  | quick
  | immediate
  | byte
  | word
  | long
  deriving DecidableEq, Repr

inductive Extra where
  | size (size : Size)
  | cond (condition : Condition)
  | none
  deriving DecidableEq, Repr

structure Form where
  op : Op
  variant : Variant
  extra : Extra
  src : Operand
  dst : Operand
  deriving DecidableEq, Repr

namespace Form

def sized (op : Op) (size : Size) (src dst : Operand) : Form :=
  ⟨op, .normal, .size size, src, dst⟩

def unsized (op : Op) (src dst : Operand) : Form :=
  ⟨op, .normal, .none, src, dst⟩

def bare (op : Op) : Form :=
  unsized op .none .none

def conditional (op : Op) (condition : Condition) (src dst : Operand) : Form :=
  ⟨op, .normal, .cond condition, src, dst⟩

def withVariant (form : Form) (variant : Variant) : Form :=
  { form with variant := variant }

end Form

structure Instruction extends Form where
  address : UInt32
  length : Nat
  deriving DecidableEq, Repr

namespace Instruction

/-- Stands for a word that encodes no instruction; always one word long. -/
def ofInvalid (address : UInt32) (opcode : UInt16) : Instruction where
  op := .invalid
  variant := .normal
  extra := .none
  src := .immediate opcode.toUInt32
  dst := .none
  address := address
  length := 2

def size? (inst : Instruction) : Option Size :=
  match inst.extra with
  | .size size => some size
  | _ => Option.none

def size (inst : Instruction) : Size :=
  inst.size?.getD .word

def condition? (inst : Instruction) : Option Condition :=
  match inst.extra with
  | .cond condition => some condition
  | _ => Option.none

def nextAddress (inst : Instruction) : UInt32 :=
  inst.address + inst.length.toUInt32

/-- Displacements in operands count from here. -/
def pcBase (inst : Instruction) : UInt32 :=
  inst.address + 2

def branchTarget? (inst : Instruction) : Option UInt32 :=
  match inst.op, inst.src with
  | .bcc, .displacement disp => some (inst.pcBase + disp.toUInt32)
  | .bsr, .displacement disp => some (inst.pcBase + disp.toUInt32)
  | .dbcc, .displacement disp => some (inst.pcBase + disp.toUInt32)
  | _, _ => Option.none

/-- Nothing is reached by falling through. -/
def isTerminal (inst : Instruction) : Bool :=
  match inst.op with
  | .bcc => inst.condition? == some .always
  | .rts => true
  | .rte => true
  | .rtr => true
  | .rtd => true
  | .jmp => true
  | .trap => true
  | .stop => true
  | .illegal => true
  | .invalid => true
  | .lineA => true
  | .lineF => true
  | _ => false

end Instruction

end Dynarec68k
