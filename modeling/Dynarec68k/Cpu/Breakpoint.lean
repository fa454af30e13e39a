import Dynarec68k.Cpu.Synchronize

namespace Dynarec68k.Cpu

variable (cpu : Cpu)

def insertBreakpoint (address : UInt32) (answers : Nat → BreakpointAnswer) : Cpu :=
  let address := cpu.memory.canonical address
  let cpu := { cpu with breakpoints := cpu.breakpoints.insert address ⟨answers, 0⟩ }
  match cpu.store.lookup address with
  | some native => { cpu with store := cpu.store.setBreakpoint address native }
  | none => cpu

def hasBreakpoint (address : UInt32) : Bool :=
  cpu.breakpoints.contains (cpu.memory.canonical address)

def removeBreakpoint (address : UInt32) : Bool × Cpu :=
  let address := cpu.memory.canonical address
  let removed := cpu.breakpoints.contains address
  let cpu := { cpu with
    breakpoints := cpu.breakpoints.erase address
    skipped := if removed && cpu.skipped == some address then none else cpu.skipped }
  match cpu.store.lookup address with
  | some native =>
    if cpu.store.entryKind native = .breakpoint then
      (removed, { cpu with store := cpu.store.restoreBoundary address native })
    else (removed, cpu)
  | none => (removed, cpu)

def breakpointResume : UInt32 :=
  2

/-- Go on past a breakpoint. The check that the call of the gate stands in place of is made here;
whatever it leads to comes back to the breakpoint, which is then not hit again. -/
def passBreakpoint (address : UInt32) : Outcome × Cpu :=
  if cpu.limit ≤ cpu.cycle then
    match cpu.synchronize address with
    | (.proceed, cpu) => (.resume breakpointResume, cpu)
    | (outcome, cpu) => (outcome, { cpu with skipped := some address })
  else (.resume breakpointResume, cpu)

def callHandler (address : UInt32) (breakpoint : Breakpoint) : BreakpointAnswer × Cpu :=
  let cpu := { cpu with
    breakpoints := cpu.breakpoints.insert address
      { breakpoint with calls := breakpoint.calls + 1 }
    counters := { cpu.counters with breakpointHits := cpu.counters.breakpointHits + 1 } }
  (breakpoint.answers breakpoint.calls, cpu.log (.breakpoint address))

/-- The breakpoint gate was called by the instruction at `address`. Where there is no breakpoint
any more the instruction gets back its check of the cycle limit. -/
def hitBreakpoint (address : UInt32) : Outcome × Cpu :=
  match cpu.breakpoints[address]? with
  | none =>
    match cpu.store.lookup address with
    | some native =>
      (.jump native, { cpu with store := cpu.store.restoreBoundary address native })
    | none =>
      let (entry, cpu) := cpu.resolve address none
      (.ofEntry entry, cpu)
  | some breakpoint =>
    if cpu.skipped = some address then { cpu with skipped := none }.passBreakpoint address
    else
      match cpu.callHandler address breakpoint with
      | (.stop, cpu) => (.leave, { cpu with pc := address, skipped := some address })
      | (.proceed, cpu) => cpu.passBreakpoint address

end Dynarec68k.Cpu
