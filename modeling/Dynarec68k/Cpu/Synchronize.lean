import Dynarec68k.Cpu.Exception

namespace Dynarec68k

open Host

inductive Outcome where
  | proceed
  | jump (native : CodePtr)
  /-- After the innermost call, this many operations further on. -/
  | resume (offset : UInt32)
  | leave
  | fail (error : CpuError)
  deriving DecidableEq, Repr

def Outcome.ofEntry : Except CpuError CodePtr → Outcome
  | .ok native => .jump native
  | .error error => .fail error

namespace Cpu

/-- Latch an interrupt that is due, and a trace; they are taken at the next instruction. -/
def latch (cpu : Cpu) : Cpu :=
  { cpu with
    latched := if cpu.request.cycle ≤ cpu.cycle then cpu.deliverable? else cpu.latched
    tracePending := cpu.tracePending || cpu.registers.tracing }.updateLimit

def synchronize (cpu : Cpu) (address : UInt32) : Outcome × Cpu :=
  if cpu.target ≤ cpu.cycle ∨ cpu.returnRequested then (.leave, { cpu with pc := address })
  else if cpu.tracePending then
    let (entry, cpu) :=
      { cpu with tracePending := false }.takeException ExceptionVector.trace address
    (.ofEntry entry, cpu)
  else
    match cpu.latched with
    | some level =>
      let (entry, cpu) := { cpu with latched := none }.takeInterrupt level address
      (.ofEntry entry, cpu)
    | none => (.proceed, cpu.latch)

def wakeLevel? (cpu : Cpu) : Option UInt8 :=
  match cpu.latched with
  | some level => some level
  | none => if cpu.request.cycle < cpu.target then cpu.deliverable? else none

def wake (cpu : Cpu) : Except CpuError (Option CodePtr) × Cpu :=
  match cpu.wakeLevel? with
  | none => (.ok none, { cpu with latched := none, cycle := max cpu.cycle cpu.target })
  | some level =>
    let cycle :=
      if cpu.request.cycle = 0xFFFFFFFF then cpu.cycle else max cpu.cycle cpu.request.cycle
    match { cpu with latched := none, cycle := cycle, stopped := false }.takeInterrupt level
        cpu.pc with
    | (.ok native, cpu) => (.ok (some native), cpu)
    | (.error error, cpu) => (.error error, cpu)

def stop (cpu : Cpu) (sr : UInt16) (next : UInt32) : Outcome × Cpu :=
  match { cpu.setSr sr with pc := next, stopped := true }.wake with
  | (.ok (some native), cpu) => (.jump native, cpu)
  | (.ok none, cpu) => (.leave, cpu)
  | (.error error, cpu) => (.fail error, cpu)

end Cpu

end Dynarec68k
