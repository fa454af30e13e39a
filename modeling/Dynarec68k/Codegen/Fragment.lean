import Dynarec68k.Config
import Dynarec68k.Guest.RegisterFile
import Dynarec68k.Host.Operation

/-!
Pieces of host code that do not yet know where they will stand. Branches inside a piece are
relative; what lies outside it is named: a gate, or the code of a guest address.

Gates are short routines at the head of every code buffer through which generated code asks for
the services it needs most often.
-/

namespace Dynarec68k

open Host

namespace Role

def scratch1 : Reg := ⟨0⟩
def scratch2 : Reg := ⟨1⟩

def scratch3 : Reg := ⟨2⟩

def temp : Reg := ⟨3⟩

def cycles : Reg := ⟨4⟩
def limit : Reg := ⟨5⟩

/-- Base of the register file, always zero. -/
def context : Reg := ⟨6⟩

def scratch4 : Reg := ⟨15⟩

/-- Guest registers (data registers, then address registers) that have a host register, with the
register they have. -/
def mixed : List (Nat × Reg) :=
  [(0, ⟨7⟩), (1, ⟨8⟩), (2, ⟨9⟩), (3, ⟨10⟩), (8, ⟨11⟩), (9, ⟨12⟩), (14, ⟨13⟩), (15, ⟨14⟩)]

end Role

namespace RegisterAssignment

def mapped : RegisterAssignment → List (Nat × Reg)
  | .mixed => Role.mixed
  | .inFile => []

def place (assignment : RegisterAssignment) (reg : Nat) : Place :=
  match assignment.mapped.lookup reg with
  | some host => .reg host
  | none => .slot Role.context (Int32.ofNat (RegisterFile.generalOffset reg))

end RegisterAssignment

namespace Config

def dataPlace (config : Config) (n : Fin 8) : Place :=
  config.registerAssignment.place n.val

def addrPlace (config : Config) (n : Fin 8) : Place :=
  config.registerAssignment.place (8 + n.val)

def generalPlace (config : Config) (n : Fin 16) : Place :=
  config.registerAssignment.place n.val

end Config

inductive Gate where
  | read8
  | read16
  | read32
  | write8
  | write16
  | write32
  | write32LowFirst
  | synchronize
  | locate
  | refresh
  | breakpoint
  deriving DecidableEq, Repr

namespace Gate

def entry : Gate → CodePtr
  | .read8 => 0
  | .read16 => 2
  | .read32 => 4
  | .write8 => 6
  | .write16 => 8
  | .write32 => 10
  | .write32LowFirst => 12
  | .synchronize => 14
  | .locate => 16
  | .refresh => 18
  | .breakpoint => 19

/-- The head of every code buffer. The last two gates never return. -/
def code : List Op :=
  [.service .read8, .ret, .service .read16, .ret, .service .read32, .ret,
    .service .write8, .ret, .service .write16, .ret, .service .write32, .ret,
    .service .write32LowFirst, .ret, .service .synchronize, .ret, .service .locate, .ret,
    .service .refresh, .service .breakpoint]

def ofRead : Size → Gate
  | .byte => .read8
  | .word => .read16
  | .long => .read32

def ofWrite (size : Size) (lowFirst : Bool) : Gate :=
  match size with
  | .byte => .write8
  | .word => .write16
  | .long => if lowFirst then .write32LowFirst else .write32

end Gate

inductive Item where
  | op (op : Op)
  | call (gate : Gate)
  | goto (target : UInt32)
  deriving DecidableEq, Repr

abbrev Fragment :=
  List Item

namespace Codegen

def mov (src dst : Place) (size : Size) : Fragment :=
  [.op (.mov src dst size)]

def movsx (src : Place) (dst : Reg) (source target : Size) : Fragment :=
  [.op (.movsx src dst source target)]

def movzx (src : Place) (dst : Reg) (source target : Size) : Fragment :=
  [.op (.movzx src dst source target)]

def alu (op : Alu) (src dst : Place) (size : Size) : Fragment :=
  [.op (.alu op src dst size)]

def unary (op : Unary) (dst : Place) (size : Size) : Fragment :=
  [.op (.unary op dst size)]

def shiftBy (op : Shift) (count : Nat) (dst : Place) (size : Size) : Fragment :=
  [.op (.shift op (.imm count.toUInt8) dst size)]

def bit (op : BitOp) (number dst : Place) (size : Size) : Fragment :=
  [.op (.bit op number dst size)]

def setTest (test : Test) (dst : Place) : Fragment :=
  [.op (.setTest test dst)]

def lea (base : Reg) (disp : Int32) (dst : Reg) : Fragment :=
  [.op (.lea base disp dst)]

def service (service : Service) : Fragment :=
  [.op (.service service)]

def call (gate : Gate) : Fragment :=
  [.call gate]

def jumpOverIf (test : Test) (count : Nat) : Fragment :=
  [.op (.jumpIf test (Int32.ofNat count))]

def skipIf (test : Test) (body : Fragment) : Fragment :=
  jumpOverIf test body.length ++ body

def skip (body : Fragment) : Fragment :=
  .op (.jump (Int32.ofNat body.length)) :: body

def repeatWhile (test : Test) (body : Fragment) : Fragment :=
  body ++ [.op (.jumpIf test (-Int32.ofNat (body.length + 1)))]

def load (value : UInt32) (reg : Reg) : Fragment :=
  mov (.imm value) (.reg reg) .long

def charge (config : Config) (clocks : Nat) : Fragment :=
  if clocks = 0 then [] else lea Role.cycles (config.cycles clocks).toInt32 Role.cycles

def callRead (size : Size) : Fragment :=
  call (.ofRead size)

def callWrite (size : Size) (lowFirst : Bool) : Fragment :=
  call (.ofWrite size lowFirst)

def pushLong (config : Config) : Fragment :=
  let sp := config.addrPlace 7
  alu .sub (.imm 4) sp .long ++ mov sp (.reg Role.scratch2) .long ++ callWrite .long false

def popLong (config : Config) : Fragment :=
  let sp := config.addrPlace 7
  mov sp (.reg Role.scratch1) .long ++ alu .add (.imm 4) sp .long ++ callRead .long

def raise (vector : Nat) (pc : UInt32) : Fragment :=
  load pc Role.scratch1 ++ load vector.toUInt32 Role.scratch2 ++ service .exception

/-- Jump from the instruction at `address` to a known guest address. Odd ones are an address
error. -/
def jumpTo (address target : UInt32) : Fragment :=
  if target &&& 1 = 0 then [.goto target]
  else load target Role.scratch1 ++ load address Role.scratch2 ++ service .fetchError

def jumpComputed : Fragment :=
  call .locate ++ [.op (.jumpReg Role.scratch1)]

/-- Head of every compiled instruction: enter the dispatcher once the cycle limit is reached. The
first two positions are where the entry is redirected or a breakpoint is set. -/
def boundary (address : UInt32) : Fragment :=
  alu .cmp (.reg Role.limit) (.reg Role.cycles) .long
    ++ skipIf .below (load address Role.scratch1 ++ call .synchronize)

end Codegen

end Dynarec68k
