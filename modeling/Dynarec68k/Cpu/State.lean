import Dynarec68k.Compiled.Block
import Dynarec68k.Cpu.Error
import Dynarec68k.Guest.RegisterFile
import Std.Data.TreeMap

namespace Dynarec68k

structure InterruptRequest where
  level : UInt8
  cycle : UInt32
  deriving DecidableEq, Repr

def InterruptRequest.none : InterruptRequest :=
  ⟨0, 0xFFFFFFFF⟩

inductive BreakpointAnswer where
  | proceed
  /-- Return from the run with the program counter at the breakpoint. The next run steps over it
  once. -/
  | stop
  deriving DecidableEq, Repr

/-- A handler by the answers of its calls, the first of them number 0. -/
structure Breakpoint where
  answers : Nat → BreakpointAnswer
  calls : Nat

structure EventCounters where
  exceptions : Nat
  interrupts : Nat
  breakpointHits : Nat
  bankSwitches : Nat
  deriving DecidableEq, Repr

structure Cpu where
  config : Config
  registers : RegisterFile
  /-- Where the next run starts. -/
  pc : UInt32
  cycle : UInt32
  target : UInt32
  /-- Cycle at which running code next looks around. -/
  limit : UInt32
  request : InterruptRequest
  /-- Interrupt recognised, to be taken at the next opportunity. -/
  latched : Option UInt8
  tracePending : Bool
  returnRequested : Bool
  stopped : Bool
  skipped : Option UInt32
  memory : MemoryMap
  store : CodeStore
  breakpoints : Std.TreeMap UInt32 Breakpoint
  logsReset : Bool
  logsAcknowledge : Bool
  acknowledged : Option UInt8
  counters : EventCounters

namespace Cpu

variable (cpu : Cpu)

def create (config : Config) (memory : MemoryMap) : Except CpuError Cpu :=
  match config.validate with
  | .error error => .error (.invalidConfig error)
  | .ok () =>
    if memory.addressMask = config.addressMask then
      .ok
        { config := config
          registers := RegisterFile.zero.setStatus 0x27
          pc := 0
          cycle := 0
          target := 0
          limit := 0
          request := .none
          latched := none
          tracePending := false
          returnRequested := false
          stopped := false
          skipped := none
          memory := memory
          store := .initial
          breakpoints := ∅
          logsReset := false
          logsAcknowledge := false
          acknowledged := none
          counters := ⟨0, 0, 0, 0⟩ }
    else .error (.invalidConfig (.busMismatch memory.addressMask config.model))

def view : GuestView where
  config := cpu.config
  memory := cpu.memory
  hasBreakpoint := cpu.breakpoints.contains

def spend (clocks : Nat) : Cpu :=
  { cpu with cycle := cpu.cycle + cpu.config.cycles clocks }

def log (cpu : Cpu) (event : Event) : Cpu :=
  { cpu with memory := { cpu.memory with log := cpu.memory.log.push event } }

def takeEvents : Array Event × Cpu :=
  (cpu.memory.log, { cpu with memory := { cpu.memory with log := #[] } })

def takeAcknowledged : Option UInt8 × Cpu :=
  (cpu.acknowledged, { cpu with acknowledged := none })

def observe : Cpu :=
  { cpu with logsReset := true, logsAcknowledge := true }

def setD (n : Nat) (value : UInt32) : Cpu :=
  { cpu with registers := cpu.registers.setD n value }

def setA (n : Nat) (value : UInt32) : Cpu :=
  { cpu with registers := cpu.registers.setA n value }

def setCcr (ccr : UInt8) : Cpu :=
  { cpu with registers := cpu.registers.setCcr ccr }

def setFlag (flag : Flag) (value : Bool) : Cpu :=
  { cpu with registers := cpu.registers.setFlag flag value }

def setPc (pc : UInt32) : Cpu :=
  { cpu with pc := pc, stopped := false, skipped := none }

def read16 (address : UInt32) : UInt16 × Cpu :=
  let (value, memory) := cpu.memory.read16 address
  (value, { cpu with memory := memory })

def read32 (address : UInt32) : UInt32 × Cpu :=
  let (value, memory) := cpu.memory.read32 address
  (value, { cpu with memory := memory })

def locate (address : UInt32) : Host.CodePtr × Cpu :=
  let (native, store) := cpu.store.locate cpu.view address
  (native, { cpu with store := store })

def refresh (address : UInt32) : Host.CodePtr × Cpu :=
  let (native, store) := cpu.store.refresh cpu.view address
  (native, { cpu with store := store })

/-- There is more code than the native backend has room for. -/
def overfull : Bool :=
  cpu.config.backend == .native && decide (nativeCapacity < cpu.store.code.size)

def text : String :=
  "CpuContext \x7b pc: $" ++ Hex.upperPadded 8 cpu.pc.toNat
    ++ ", sr: $" ++ Hex.upperPadded 4 cpu.registers.sr.toNat
    ++ ", current_cycle: " ++ toString cpu.cycle.toNat
    ++ ", target_cycle: " ++ toString cpu.target.toNat
    ++ ", stopped: " ++ toString cpu.stopped
    ++ ", translated: " ++ toString cpu.store.entries.count ++ ", .. \x7d"

end Cpu

end Dynarec68k
