import Dynarec68k.Cpu.Memory
import Dynarec68k.Guest.ExceptionVector

namespace Dynarec68k

open Host ExceptionVector

inductive FaultKind where
  | read
  | write
  | fetch
  deriving DecidableEq, Repr

structure AddressFault where
  address : UInt32
  kind : FaultKind
  origin : Option UInt32
  deriving DecidableEq, Repr

/-- Function code and direction of an access, over the upper bits of the instruction register. -/
def AddressFault.accessWord (fault : AddressFault) (ir : UInt16) (supervisor : Bool) : UInt16 :=
  let space : UInt16 := if fault.kind = .fetch then 2 else 1
  let mode : UInt16 := if supervisor then 4 else 0
  let direction : UInt16 := if fault.kind = .write then 0 else 0x10
  (ir &&& 0xFFE0) ||| direction ||| space ||| mode

namespace Cpu

variable (cpu : Cpu)

/-- Supervisor mode without trace. The status register from before is what gets stacked. -/
def enterSupervisor : Cpu :=
  cpu.setSr ((cpu.registers.sr ||| 0x2000) &&& 0x7FFF)

def push16 (value : UInt16) : Cpu :=
  let sp := cpu.registers.a 7 - 2
  (cpu.write16 sp value).setA 7 sp

def push32 (value : UInt32) : Cpu :=
  let sp := cpu.registers.a 7 - 4
  (cpu.write32 sp value).setA 7 sp

def vectorTo (vector : Nat) : Except CpuError UInt32 × Cpu :=
  let (target, cpu) := cpu.read32 (4 * vector).toUInt32
  let cpu := { cpu.spend (clocks vector) with
    counters := { cpu.counters with exceptions := cpu.counters.exceptions + 1 }
    tracePending := false
    stopped := false }
  if target &&& 1 = 0 then (.ok target, { cpu with pc := target })
  else (.error (.doubleFault vector target), cpu)

def enterException (vector : Nat) (pc : UInt32) : Except CpuError UInt32 × Cpu :=
  let sr := cpu.registers.sr
  ((cpu.enterSupervisor.push32 pc).push16 sr).vectorTo vector

/-- What the frame of an address error gives as program counter: the target of a fetch, or the
word after the opcode. -/
def faultPc (fault : AddressFault) : UInt32 :=
  match fault.kind, fault.origin with
  | .fetch, _ => fault.address
  | _, some origin => origin + 2
  | _, none => cpu.pc

def faultOpcode (fault : AddressFault) : UInt16 × Cpu :=
  match fault.origin with
  | some origin => cpu.read16 origin
  | none => (0, cpu)

def takeAddressError (fault : AddressFault) : Except CpuError CodePtr × Cpu :=
  let (ir, cpu) := cpu.faultOpcode fault
  let pc := cpu.faultPc fault
  let access := fault.accessWord ir cpu.registers.supervisor
  let sr := cpu.registers.sr
  let cpu := ((cpu.enterSupervisor.push32 pc).push16 sr).push16 ir
  let cpu := (cpu.push32 fault.address).push16 access
  match cpu.vectorTo addressError with
  | (.error error, cpu) => (.error error, cpu)
  | (.ok handler, cpu) =>
    let (native, cpu) := cpu.locate handler
    (.ok native, cpu)

def resolve (address : UInt32) (origin : Option UInt32) : Except CpuError CodePtr × Cpu :=
  if address &&& 1 = 0 then
    let (native, cpu) := cpu.locate address
    (.ok native, cpu)
  else cpu.takeAddressError ⟨address, .fetch, origin⟩

def takeException (vector : Nat) (pc : UInt32) : Except CpuError CodePtr × Cpu :=
  match cpu.enterException vector pc with
  | (.error error, cpu) => (.error error, cpu)
  | (.ok handler, cpu) => cpu.resolve handler none

def acknowledge (level : UInt8) : Cpu :=
  let cpu := { cpu with
    request := .none
    counters := { cpu.counters with interrupts := cpu.counters.interrupts + 1 }
    acknowledged := some level }
  if cpu.logsAcknowledge then cpu.log (.acknowledge level) else cpu

def takeInterrupt (level : UInt8) (pc : UInt32) : Except CpuError CodePtr × Cpu :=
  match (cpu.acknowledge level).enterException (autovector + level.toNat) pc with
  | (.error error, cpu) => (.error error, cpu)
  | (.ok handler, cpu) =>
    let mask := (level &&& 7).toUInt16 <<< 8
    (cpu.setSr ((cpu.registers.sr &&& 0xF8FF) ||| mask)).resolve handler none

def returnFromException (origin : Option UInt32) : Except CpuError CodePtr × Cpu :=
  let sp := cpu.registers.a 7
  let (sr, cpu) := cpu.read16 sp
  let (pc, cpu) := cpu.read32 (sp + 2)
  let cpu := (cpu.setA 7 (sp + 6)).setSr sr
  { cpu with pc := pc }.resolve pc origin

end Cpu

end Dynarec68k
