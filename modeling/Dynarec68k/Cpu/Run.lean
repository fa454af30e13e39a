import Dynarec68k.Cpu.Service

/-!
Running compiled code. Between services the guest registers that have a host register, the cycle
counter and the cycle limit live in the host; they are stored before every service and loaded
after it.
-/

namespace Dynarec68k

open Host

namespace Cpu

def loadHost (cpu : Cpu) (state : State) : Machine where
  state :=
    let state := cpu.config.registerAssignment.mapped.foldl
      (fun state (guest, host) => state.setReg host (cpu.registers.general guest)) state
    ((state.setReg Role.cycles cpu.cycle).setReg Role.limit cpu.limit).setReg Role.context 0
  file := cpu.registers

def storeHost (cpu : Cpu) (machine : Machine) : Cpu :=
  { cpu with
    registers := cpu.config.registerAssignment.mapped.foldl
      (fun file (guest, host) => file.setGeneral guest (machine.state.reg host)) machine.file
    cycle := machine.state.reg Role.cycles
    limit := machine.state.reg Role.limit }

end Cpu

/-- A processor in the middle of a run. While code runs, `machine` holds the guest's registers and
those of `cpu` are out of date. -/
structure Session where
  cpu : Cpu
  machine : Machine
  site : CodePtr

inductive Step where
  | next (session : Session)
  | done (result : Except CpuError Unit) (cpu : Cpu)

namespace Step

def cpu : Step → Cpu
  | .next session => session.cpu
  | .done _ cpu => cpu

/-- Before code runs, and after every service, the native backend translates what is new of it. The
run is over if that does not fit. -/
def translated (step : Step) : Step :=
  if step.cpu.overfull then .done (.error (.nativeCode step.cpu.store.code.size)) step.cpu
  else step

end Step

namespace Session

variable (session : Session)

def start (cpu : Cpu) (entry : CodePtr) : Session where
  cpu := cpu
  machine := cpu.loadHost State.initial
  site := entry

def fault (reason : FaultReason) : Step :=
  .done (.error (.hostFault session.site reason))
    { session.cpu with registers := session.machine.file }

def goto (site : CodePtr) : Session :=
  { session with site := site }

def setStack (stack : List UInt32) : Session :=
  { session with
    machine := { session.machine with state := { session.machine.state with stack := stack } } }

def follow (outcome : Outcome) : Step :=
  match outcome with
  | .proceed => .next (session.goto (session.site + 1))
  | .jump native => .next ((session.setStack []).goto native)
  | .resume offset =>
    match session.machine.state.stack with
    | back :: rest => .next ((session.setStack rest).goto (back + offset))
    | [] => session.fault .emptyServiceReturn
  | .leave => .done (.ok ()) session.cpu
  | .fail error => .done (.error error) session.cpu

def serve (service : Service) : Step :=
  let cpu := session.cpu.storeHost session.machine
  let served := cpu.serve session.machine.state service
  let state :=
    match served.result with
    | some value => session.machine.state.setReg Role.scratch1 value
    | none => session.machine.state
  { session with cpu := served.cpu, machine := served.cpu.loadHost state }.follow served.outcome

def step : Step :=
  let next := session.site + 1
  match session.cpu.store.code.op? session.site with
  | none => session.fault .offTheEnd
  | some (.service service) => session.serve service
  | some (.jumpIf test rel) =>
    if session.machine.state.flags.holds test then .next (session.goto (next + rel.toUInt32))
    else .next (session.goto next)
  | some (.jump rel) => .next (session.goto (next + rel.toUInt32))
  | some (.jumpReg reg) => .next (session.goto (session.machine.state.reg reg))
  | some (.call rel) =>
    .next ((session.setStack (next :: session.machine.state.stack)).goto (next + rel.toUInt32))
  | some .ret =>
    match session.machine.state.stack with
    | back :: rest => .next ((session.setStack rest).goto back)
    | [] => session.fault .emptyReturn
  | some (.push reg) =>
    let value := session.machine.state.reg reg
    .next ((session.setStack (value :: session.machine.state.stack)).goto next)
  | some (.pop reg) =>
    match session.machine.state.stack with
    | value :: rest =>
      let session := session.setStack rest
      .next
        { session with
          machine := session.machine.setReg reg .long value
          site := next }
    | [] => session.fault .emptyPop
  | some op =>
    match session.machine.perform op with
    | .ok machine => .next { session with machine := machine, site := next }
    | .error reason => session.fault reason

/-- A step, if it comes to an end. A service that searches for ever is never done. -/
def advance : Step :=
  if session.step.cpu.store.endless then .next session else session.step.translated

def run : Option (Except CpuError Unit × Cpu) :=
  have : Nonempty (Except CpuError Unit × Cpu) := ⟨(.ok (), session.cpu)⟩
  repeatM
    (fun session : Session =>
      match session.advance with
      | .next session => some (.inl session)
      | .done result cpu => some (.inr (result, cpu)))
    session

end Session

namespace Cpu

def enter (cpu : Cpu) : Except CpuError (Option CodePtr) × Cpu :=
  if cpu.stopped then cpu.wake
  else
    match cpu.resolve cpu.pc none with
    | (.ok native, cpu) => (.ok (some native), cpu)
    | (.error error, cpu) => (.error error, cpu)

/-- A processor with a run before it. -/
abbrev aim (cpu : Cpu) (target : UInt32) : Cpu :=
  { cpu with target := target, returnRequested := false }

/-- The first moment of a run. The run is over at once if it ends before it comes to code. -/
def begin (cpu : Cpu) (target : UInt32) : Step :=
  match (cpu.aim target).enter with
  | (.error error, cpu) => .done (.error error) cpu
  | (.ok none, cpu) => .done (.ok ()) cpu
  | (.ok (some entry), cpu) => (Step.next (Session.start cpu.updateLimit entry)).translated

def runUntil (cpu : Cpu) (target : UInt32) : Option (Except CpuError Unit × Cpu) :=
  match cpu.begin target with
  | .next session => session.run
  | .done result cpu =>
    if cpu.store.endless then (Session.start cpu 0).run else some (result, cpu)

end Cpu

end Dynarec68k
