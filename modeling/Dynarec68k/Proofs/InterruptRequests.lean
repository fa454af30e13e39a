import Dynarec68k.Proofs.ServiceChanges

/-!
What becomes of a request for an interrupt. `InterruptLines.Change` lists what a step can do to
the request and to what was latched of it; everything a processor does between two instructions is
one of these. A request stays in place until an interrupt is accepted: the one it asked for, or
one that was latched before the request was made.
-/

namespace Dynarec68k

open Host Relation

/-- What a processor knows of interrupts, and how many it has accepted. -/
structure InterruptLines where
  request : InterruptRequest
  latched : Option UInt8
  accepted : Nat
  acknowledged : Option UInt8
  deriving DecidableEq

def Cpu.lines (cpu : Cpu) : InterruptLines where
  request := cpu.request
  latched := cpu.latched
  accepted := cpu.counters.interrupts
  acknowledged := cpu.acknowledged

namespace InterruptLines

/-- The lines after an interrupt was accepted. Accepting takes back the request that stands. -/
def accept (lines : InterruptLines) (level : UInt8) : InterruptLines where
  request := .none
  latched := none
  accepted := lines.accepted + 1
  acknowledged := some level

/-- The mask lets a level through. Level 7 cannot be masked. -/
def Admits (mask level : UInt8) : Prop :=
  mask < level ∨ level = 7

/-- What one step does to the lines, with the mask that it finds. -/
inductive Change (lines : InterruptLines) (mask : UInt8) : InterruptLines → Prop
  | keep : Change lines mask lines
  | latch (h : lines.latched = none) (admits : Admits mask (lines.request.level &&& 7)) :
      Change lines mask { lines with latched := some (lines.request.level &&& 7) }
  | forget : Change lines mask { lines with latched := none }
  | acceptLatched {level : UInt8} (h : lines.latched = some level) :
      Change lines mask (lines.accept level)
  | acceptRequest (h : lines.latched = none) (admits : Admits mask (lines.request.level &&& 7)) :
      Change lines mask (lines.accept (lines.request.level &&& 7))

theorem Change.of_eq {lines lines' : InterruptLines} {mask : UInt8} (h : lines' = lines) :
    lines.Change mask lines' :=
  h ▸ .keep

end InterruptLines

/-- Services that look at the lines. -/
def Host.Service.Looks : Service → Prop
  | .synchronize | .breakpoint | .stop => True
  | _ => False

namespace Cpu

variable (cpu : Cpu) (address : UInt32) (level : UInt8)

theorem quiet_lines : Quiet fun x y => y.lines = x.lines where
  trans h h' := h'.trans h
  pass _ _ _ := rfl
  setFlag _ _ _ := rfl
  afterWrite _ _ _ action := by
    cases action <;> rfl

theorem entered_lines : Entered fun x y => y.lines = x.lines where
  setSr _ _ := rfl
  setA _ _ _ := rfl
  vectorTo cpu vector := by
    simp only [vectorTo]
    split <;> rfl

theorem lasting_lines : Lasting fun x y => y.lines = x.lines where
  toQuiet := quiet_lines
  note _ _ _ _ _ _ := rfl
  locate _ _ := rfl
  addressError _ fault := entered_lines.addressError quiet_lines (fun _ _ => rfl) fault
  exception _ vector pc := entered_lines.exception quiet_lines (fun _ _ => rfl) vector pc

theorem lines_setCcr (ccr : UInt8) : (cpu.setCcr ccr).lines = cpu.lines := by
  simp only [lines, setCcr]

theorem lines_reset : cpu.reset.lines = { cpu.lines with latched := none } := by
  have hsettled (c : Cpu) (stack pc : UInt32) : Cpu.lines { (c.setA 7 stack).setPc pc with
      latched := none, tracePending := false } = { c.lines with latched := none } := rfl
  have hstarted (memory : MemoryMap) : Cpu.lines { cpu.setSr 0x2700 with
      stopped := false, returnRequested := false, memory := memory } = cpu.lines := rfl
  simp only [reset, read32, hsettled]
  rw [hstarted]

theorem lines_returnFromException (origin : Option UInt32) :
    (cpu.returnFromException origin).2.lines = cpu.lines :=
  lasting_lines.returnFromException entered_lines.setSr entered_lines.setA cpu origin

theorem lines_acknowledge :
    (cpu.acknowledge level).lines = { cpu.lines.accept level with latched := cpu.latched } := by
  simp only [acknowledge]
  split <;> rfl

theorem lines_takeInterrupt (pc : UInt32) (h : cpu.latched = none) :
    (cpu.takeInterrupt level pc).2.lines = cpu.lines.accept level := by
  have hentered := entered_lines.enterException quiet_lines (cpu.acknowledge level)
    (ExceptionVector.autovector + level.toNat) pc
  rw [lines_acknowledge, h] at hentered
  unfold takeInterrupt
  split
  · rename_i heq
    rw [heq] at hentered
    exact hentered
  · rename_i heq
    rw [heq] at hentered
    exact (lasting_lines.resolve _ _ _).trans hentered

abbrev mask : UInt8 :=
  cpu.registers.interruptMask

theorem deliverable?_cases :
    cpu.deliverable? = none ∨
      cpu.deliverable? = some (cpu.request.level &&& 7) ∧
        InterruptLines.Admits cpu.mask (cpu.request.level &&& 7) := by
  simp only [deliverable?]
  split
  · rename_i h
    exact .inr ⟨rfl, h.2⟩
  · exact .inl rfl

theorem change_latch (h : cpu.latched = none) : cpu.lines.Change cpu.mask cpu.latch.lines := by
  have hlines : cpu.latch.lines = { cpu.lines with latched := cpu.latch.latched } := rfl
  have hlatched : cpu.latch.latched = none ∨
      cpu.latch.latched = some (cpu.request.level &&& 7) ∧
        InterruptLines.Admits cpu.mask (cpu.request.level &&& 7) := by
    simp only [latch, updateLimit]
    split
    · exact cpu.deliverable?_cases
    · exact .inl h
  rw [hlines]
  rcases hlatched with hnone | ⟨hsome, hadmits⟩
  · rw [hnone]
    exact .forget
  · rw [hsome]
    exact .latch h hadmits

theorem change_synchronize : cpu.lines.Change cpu.mask (cpu.synchronize address).2.lines := by
  unfold synchronize
  split
  · exact .keep
  · split
    · exact .of_eq ((lasting_lines.exception _ _ _).trans rfl)
    · split
      · rename_i level hlatched
        have haccepted := { cpu with latched := none }.lines_takeInterrupt level address rfl
        rw [show (Cpu.lines { cpu with latched := none }).accept level = cpu.lines.accept level
          from rfl] at haccepted
        exact haccepted ▸ .acceptLatched hlatched
      · rename_i hlatched
        exact cpu.change_latch hlatched

theorem change_wake : cpu.lines.Change cpu.mask cpu.wake.2.lines := by
  -- The interrupt that wakes was latched before, or is the one requested.
  have hlevel {level : UInt8} (h : cpu.wakeLevel? = some level) :
      cpu.lines.Change cpu.mask (cpu.lines.accept level) := by
    unfold wakeLevel? at h
    split at h
    · rename_i hlatched
      obtain rfl := Option.some.inj h
      exact .acceptLatched hlatched
    · rename_i hlatched
      split at h
      · obtain ⟨hrequest, hadmits⟩ := cpu.deliverable?_cases.resolve_left (by rw [h]; exact nofun)
        rw [h, Option.some.injEq] at hrequest
        exact hrequest ▸ .acceptRequest hlatched hadmits
      · exact absurd h nofun
  unfold wake
  split
  · exact .forget
  · rename_i level hwake
    have haccepted (cycle : UInt32) :=
      { cpu with latched := none, cycle := cycle, stopped := false }.lines_takeInterrupt level
        cpu.pc rfl
    dsimp only
    split
    · rename_i heq
      have hlines := haccepted (if cpu.request.cycle = 0xFFFFFFFF then cpu.cycle
        else max cpu.cycle cpu.request.cycle)
      rw [heq] at hlines
      exact hlines ▸ hlevel hwake
    · rename_i heq
      have hlines := haccepted (if cpu.request.cycle = 0xFFFFFFFF then cpu.cycle
        else max cpu.cycle cpu.request.cycle)
      rw [heq] at hlines
      exact hlines ▸ hlevel hwake

theorem change_stop (sr : UInt16) (next : UInt32) :
    cpu.lines.Change (cpu.setSr sr).mask (cpu.stop sr next).2.lines := by
  have hwake := { cpu.setSr sr with pc := next, stopped := true }.change_wake
  unfold stop
  split <;> (rename_i heq; rw [heq] at hwake; exact hwake)

theorem change_passBreakpoint : cpu.lines.Change cpu.mask (cpu.passBreakpoint address).2.lines := by
  have hlooked := cpu.change_synchronize address
  unfold passBreakpoint
  split
  · split
    · rename_i heq
      rw [heq] at hlooked
      exact hlooked
    · rename_i heq
      rw [heq] at hlooked
      exact hlooked
  · exact .keep

theorem change_hitBreakpoint : cpu.lines.Change cpu.mask (cpu.hitBreakpoint address).2.lines := by
  unfold hitBreakpoint
  split
  · split
    · exact .keep
    · exact .of_eq (lasting_lines.resolve _ _ _)
  · split
    · exact change_passBreakpoint { cpu with skipped := none } address
    · rename_i breakpoint _ _
      have hcalled : (cpu.callHandler address breakpoint).2.lines = cpu.lines := rfl
      split
      · rename_i heq
        rw [heq] at hcalled
        exact .of_eq hcalled
      · rename_i called heq
        have hmask : (cpu.callHandler address breakpoint).2.mask = cpu.mask := rfl
        rw [heq] at hcalled hmask
        exact hcalled ▸ hmask ▸ called.change_passBreakpoint address

/-- The mask that a service finds. STOP has loaded the status register before it looks. -/
def maskFor (host : State) : Service → UInt8
  | .stop => (cpu.setSr (host.reg Role.scratch1).toUInt16).mask
  | _ => cpu.mask

theorem change_serve (host : State) (service : Service) :
    (cpu.serve host service).cpu.lines = cpu.lines ∨ service.Looks ∧
      cpu.lines.Change (cpu.maskFor host service) (cpu.serve host service).cpu.lines := by
  by_cases hback : service.GivesBack
  · exact .inl (lasting_lines.serve_back host hback fun _ _ => rfl)
  cases service with
  | synchronize => exact .inr ⟨trivial, cpu.change_synchronize _⟩
  | locate => exact .inl (lasting_lines.serve_locate host)
  | refresh => exact .inl rfl
  | breakpoint => exact .inr ⟨trivial, cpu.change_hitBreakpoint _⟩
  | outOfBounds => exact .inl rfl
  | exception => exact .inl (lasting_lines.exception cpu _ _)
  | fetchError => exact .inl (lasting_lines.addressError cpu _)
  | returnFromException => exact .inl (cpu.lines_returnFromException _)
  | stop => exact .inr ⟨trivial, cpu.change_stop _ _⟩
  | _ => exact absurd (by decide) hback

theorem change_begin (target : UInt32) :
    (cpu.begin target).cpu.lines = cpu.lines ∨ cpu.stopped = true ∧
      cpu.lines.Change cpu.mask (cpu.begin target).cpu.lines := by
  have henter : (cpu.aim target).enter.2.lines = cpu.lines ∨
      cpu.stopped = true ∧ cpu.lines.Change cpu.mask (cpu.aim target).enter.2.lines := by
    unfold enter
    split
    · rename_i hstopped
      exact .inr ⟨hstopped, change_wake (cpu.aim target)⟩
    · have hresolved := lasting_lines.resolve (cpu.aim target) cpu.pc none
      split <;> (rename_i heq; rw [heq] at hresolved; exact .inl hresolved)
  rcases cpu.begin_cpu target with heq | heq
  · rw [heq]
    exact henter
  · rw [heq]
    exact henter

end Cpu

namespace Session

theorem lines_follow (session : Session) (outcome : Outcome) :
    (session.follow outcome).cpu.lines = session.cpu.lines := by
  cases outcome with
  | resume offset =>
    simp only [follow]
    split <;> rfl
  | _ => rfl

def mask (session : Session) : UInt8 :=
  match session.cpu.store.code.op? session.site with
  | some (.service service) =>
    (session.cpu.storeHost session.machine).maskFor session.machine.state service
  | _ => (session.cpu.storeHost session.machine).mask

/-- A step leaves the lines alone, or serves what looks at them. -/
theorem change_step (session : Session) :
    session.step.cpu.lines = session.cpu.lines ∨
      (∃ service, session.cpu.store.code.op? session.site = some (.service service) ∧
        service.Looks) ∧
      session.cpu.lines.Change session.mask session.step.cpu.lines := by
  cases hop : session.cpu.store.code.op? session.site with
  | none =>
    rw [step, hop]
    exact .inl rfl
  | some op =>
    cases op with
    | service service =>
      have hserved := (session.cpu.storeHost session.machine).change_serve
        session.machine.state service
      rw [step, mask, hop]
      simp only [serve, lines_follow]
      exact hserved.imp_right (.imp_left fun hlooks => ⟨service, rfl, hlooks⟩)
    | jumpIf test rel =>
      simp only [step, hop]
      split <;> exact .inl rfl
    | ret =>
      simp only [step, hop]
      split <;> exact .inl rfl
    | pop reg =>
      simp only [step, hop]
      split <;> exact .inl rfl
    | jump | jumpReg | call | push =>
      rw [step, hop]
      exact .inl rfl
    | mov | movsx | movzx | alu | unary | shift | bit | setTest | lea =>
      simp only [step, hop]
      split <;> exact .inl rfl

end Session

namespace Moment

/-- The mask that is found by what happens next. -/
def mask : Moment → UInt8
  | idle cpu => cpu.mask
  | running session => session.mask

/-- What happens next looks at the lines: a gate or STOP does, and a run that a stopped processor
begins. -/
def Looks : Moment → Prop
  | idle cpu => cpu.stopped = true
  | running session =>
    ∃ service, session.cpu.store.code.op? session.site = some (.service service) ∧ service.Looks

/-- The lines change where something looks at them, unless it is an operation that changes them. -/
theorem Next.change {allowed : Operation → Prop} {m m' : Moment} (h : Next allowed m m') :
    (∃ cpu operation, allowed operation ∧ m = .idle cpu ∧ m' = .idle (operation.apply cpu)) ∨
      m'.cpu.lines = m.cpu.lines ∨ m.Looks ∧ m.cpu.lines.Change m.mask m'.cpu.lines := by
  cases h with
  | operate cpu operation h => exact .inl ⟨cpu, operation, h, rfl, rfl⟩
  | begin cpu target =>
    rw [Step.moment_cpu]
    exact .inr (cpu.change_begin target)
  | step session =>
    rw [Step.moment_cpu]
    exact .inr session.change_step
  | overfull session => exact .inr session.change_step

end Moment

/-- Cycles that the cycle of a request can become when the clock is set back. -/
inductive Rebased (cycle : UInt32) : UInt32 → Prop
  | refl : Rebased cycle cycle
  | adjust {now : UInt32} (deduction : UInt32) (h : Rebased cycle now) :
      Rebased cycle (if now = 0xFFFFFFFF then now else Cpu.deduct now deduction)

/-- The request made is in place, and nothing was accepted since `count` interrupts were. What is
latched comes from this request, or was latched `before`. -/
structure Standing (level : UInt8) (cycle : UInt32) (before : Option UInt8) (count : Nat)
    (lines : InterruptLines) : Prop where
  requested : lines.request.level = level
  due : Rebased cycle lines.request.cycle
  latched : lines.latched = none ∨ lines.latched = before ∨ lines.latched = some level
  accepted : lines.accepted = count

namespace Standing

variable {level : UInt8} {cycle : UInt32} {before : Option UInt8} {count : Nat}
  {lines lines' : InterruptLines}

theorem latchedOf (h : Standing level cycle before count lines) {latched : Option UInt8}
    (hlatched : latched = none ∨ latched = before ∨ latched = some level) :
    Standing level cycle before count { lines with latched := latched } :=
  ⟨h.requested, h.due, hlatched, h.accepted⟩

/-- A step leaves the request in place, or accepts an interrupt. -/
theorem change {mask : UInt8} (h : Standing level cycle before count lines)
    (hlevel : level &&& 7 = level) (hchange : lines.Change mask lines') :
    Standing level cycle before count lines' ∨
      ∃ accepted, lines' = lines.accept accepted ∧ (accepted = level ∨ before = some accepted) := by
  have hrequested : lines.request.level &&& 7 = level := by
    rw [h.requested, hlevel]
  cases hchange with
  | keep => exact .inl h
  | latch _ _ => exact .inl (h.latchedOf (.inr (.inr (congrArg some hrequested))))
  | forget => exact .inl (h.latchedOf (.inl rfl))
  | @acceptLatched accepted hlatched =>
    refine .inr ⟨accepted, rfl, ?_⟩
    rcases h.latched with hnone | hbefore | hthis
    · rw [hlatched] at hnone
      exact absurd hnone nofun
    · exact .inr (hbefore.symm.trans hlatched)
    · exact .inl (Option.some.inj (hlatched.symm.trans hthis))
  | acceptRequest _ _ => exact .inr ⟨level, by rw [hrequested], .inl rfl⟩

end Standing

/-- Operations that leave the lines alone. -/
def Operation.leavesLines : Operation → Bool
  | setInterrupt _ _ | restore _ | adjustCycles _ | reset | takeAcknowledged => false
  | _ => true

theorem Operation.lines_apply (cpu : Cpu) (operation : Operation)
    (h : operation.leavesLines = true) : (operation.apply cpu).lines = cpu.lines := by
  cases operation with
  | setInterrupt | restore | adjustCycles | reset | takeAcknowledged => cases h
  | write8 | write16 | write32 => exact Cpu.quiet_lines.written _ _ _ _
  | selectBank start bank =>
    simp only [apply, Cpu.selectBank]
    split <;> rfl
  | insertBreakpoint address answers =>
    simp only [apply, Cpu.insertBreakpoint]
    split <;> rfl
  | removeBreakpoint address =>
    simp only [apply, Cpu.removeBreakpoint]
    split
    · split <;> rfl
    · rfl
  | setCcr ccr => exact cpu.lines_setCcr ccr
  | setD | setA | setSr | setFlag | setPc | requestReturn | invalidate | observe | takeEvents
  | changeMemory => rfl

/-- Neither makes or withdraws a request nor loads a snapshot with one. -/
def Operation.leavesRequest : Operation → Bool
  | setInterrupt _ _ => false
  | restore _ => false
  | _ => true

namespace Standing

variable {level : UInt8} {cycle : UInt32} {before : Option UInt8} {count : Nat}

theorem apply {cpu : Cpu} (h : Standing level cycle before count cpu.lines)
    {operation : Operation} (hleaves : operation.leavesRequest = true) :
    Standing level cycle before count (operation.apply cpu).lines := by
  by_cases hsame : operation.leavesLines = true
  · exact operation.lines_apply cpu hsame ▸ h
  cases operation with
  | setInterrupt | restore => exact absurd hleaves nofun
  | adjustCycles deduction => exact ⟨h.requested, h.due.adjust deduction, h.latched, h.accepted⟩
  | reset => exact cpu.lines_reset ▸ h.latchedOf (.inl rfl)
  | takeAcknowledged => exact ⟨h.requested, h.due, h.latched, h.accepted⟩
  | _ => exact absurd rfl hsame

/-- What happens next leaves the request in place, or accepts an interrupt. -/
theorem next {m m' : Moment} (h : Standing level cycle before count m.cpu.lines)
    (hlevel : level &&& 7 = level)
    (hnext : Moment.Next (fun operation => operation.leavesRequest = true) m m') :
    Standing level cycle before count m'.cpu.lines ∨
      ∃ accepted, m'.cpu.lines = m.cpu.lines.accept accepted ∧
        (accepted = level ∨ before = some accepted) := by
  rcases hnext.change with ⟨cpu, operation, hleaves, rfl, rfl⟩ | hsame | ⟨-, hchange⟩
  · exact .inl (h.apply hleaves)
  · exact .inl (hsame ▸ h)
  · exact h.change hlevel hchange

end Standing

/-- A request for an interrupt stays in place until an interrupt is accepted, which is the one
requested unless another was latched when the request was made. -/
theorem request_stands_until_accepted (cpu : Cpu) {level : UInt8} (hpositive : 0 < level)
    (hhighest : level ≤ 7) (cycle : UInt32) {m : Moment}
    (h : ReflTransGen (Moment.Next fun operation => operation.leavesRequest = true)
      (.idle (cpu.setInterrupt level cycle)) m) :
    Standing level cycle cpu.latched cpu.counters.interrupts m.cpu.lines ∨
      ∃ m₁ m₂ accepted,
        ReflTransGen (Moment.Next fun operation => operation.leavesRequest = true)
          (.idle (cpu.setInterrupt level cycle)) m₁ ∧
        Moment.Next (fun operation => operation.leavesRequest = true) m₁ m₂ ∧
        ReflTransGen (Moment.Next fun operation => operation.leavesRequest = true) m₂ m ∧
        Standing level cycle cpu.latched cpu.counters.interrupts m₁.cpu.lines ∧
        m₂.cpu.lines = m₁.cpu.lines.accept accepted ∧
        (accepted = level ∨ cpu.latched = some accepted) := by
  have hlevel : level &&& 7 = level := by
    have hlt : level.toNat < 2 ^ 3 := Nat.lt_succ_of_le hhighest
    apply UInt8.toNat_inj.mp
    rw [UInt8.toNat_and]
    exact Nat.and_two_pow_sub_one_of_lt_two_pow hlt
  induction h with
  | refl =>
    have hne : level ≠ 0 := by
      rintro rfl
      exact absurd hpositive (by decide)
    refine .inl ⟨hlevel, ?_, .inr (.inl rfl), rfl⟩
    have hcycle : (cpu.setInterrupt level cycle).lines.request.cycle = cycle := by
      simp only [Cpu.lines, Cpu.setInterrupt, Cpu.updateLimit, hlevel, if_neg hne]
    rw [Moment.cpu, hcycle]
    exact .refl
  | @tail m₁ m₂ hpath hnext ih =>
    rcases ih with hstands | ⟨n₁, n₂, accepted, hbefore, hstep, hafter, hrest⟩
    · rcases hstands.next hlevel hnext with hstill | ⟨accepted, hlines, hwhich⟩
      · exact .inl hstill
      · exact .inr ⟨m₁, m₂, accepted, hpath, hnext, .refl, hstands, hlines, hwhich⟩
    · exact .inr ⟨n₁, n₂, accepted, hbefore, hstep, hafter.tail hnext, hrest⟩

/-- A request made before the clock is set back and a run starts. -/
theorem request_stands_until_accepted_at_start :
    ∃ cpu : Cpu, Cpu.create .default ⟨#[], 0xFFFFFF, #[]⟩ = .ok cpu ∧
      (Standing 4 100 none 0 (((cpu.setInterrupt 4 100).adjustCycles 10).begin 50).moment.cpu.lines ∨
        ∃ m₁ m₂ accepted,
          ReflTransGen (Moment.Next fun operation => operation.leavesRequest = true)
            (.idle (cpu.setInterrupt 4 100)) m₁ ∧
          Moment.Next (fun operation => operation.leavesRequest = true) m₁ m₂ ∧
          ReflTransGen (Moment.Next fun operation => operation.leavesRequest = true) m₂
            (((cpu.setInterrupt 4 100).adjustCycles 10).begin 50).moment ∧
          Standing 4 100 none 0 m₁.cpu.lines ∧
          m₂.cpu.lines = m₁.cpu.lines.accept accepted ∧
          (accepted = 4 ∨ none = some accepted)) := by
  obtain ⟨cpu, hcpu, hlatched, hcount⟩ : ∃ cpu : Cpu,
      Cpu.create .default ⟨#[], 0xFFFFFF, #[]⟩ = .ok cpu ∧ cpu.latched = none ∧
        cpu.counters.interrupts = 0 := ⟨_, rfl, rfl, rfl⟩
  have hstands := request_stands_until_accepted cpu (show (0 : UInt8) < 4 by decide) (by decide)
    100 ((ReflTransGen.single (.operate _ (.adjustCycles 10) rfl)).tail (.begin _ 50))
  rw [hlatched, hcount] at hstands
  exact ⟨cpu, hcpu, hstands⟩

/-- A processor that waits with an interrupt latched accepts that one when it runs again, whatever
was requested meanwhile, and the newer request is gone. -/
theorem newer_request_discarded {cpu : Cpu} {latched : UInt8} (hstopped : cpu.stopped = true)
    (hlatched : cpu.latched = some latched) (level : UInt8) (cycle target : UInt32) :
    ((cpu.setInterrupt level cycle).begin target).cpu.lines = cpu.lines.accept latched := by
  generalize hstart : (cpu.setInterrupt level cycle).aim target = start
  have hwaits : start.stopped = true := hstart ▸ hstopped
  have hlevel : start.wakeLevel? = some latched := by
    rw [Cpu.wakeLevel?, ← hstart, Cpu.setInterrupt, Cpu.updateLimit, hlatched]
  have hwake : start.wake.2.lines = cpu.lines.accept latched := by
    have haccepted (cycle : UInt32) :=
      { start with latched := none, cycle := cycle, stopped := false }.lines_takeInterrupt latched
        start.pc rfl
    have hlines (now : UInt32) : (Cpu.lines { start with
        latched := none, cycle := now, stopped := false }).accept latched =
        cpu.lines.accept latched := by
      rw [← hstart]
      rfl
    simp only [hlines] at haccepted
    rw [Cpu.wake, hlevel]
    dsimp only
    split <;> (rename_i heq; exact (congrArg (fun r => r.2.lines) heq).symm.trans (haccepted _))
  have henter : start.enter.2.lines = cpu.lines.accept latched := by
    rw [Cpu.enter, if_pos hwaits]
    exact hwake
  rcases (cpu.setInterrupt level cycle).begin_cpu target with heq | heq
  · rw [heq, hstart]
    exact henter
  · rw [heq, hstart]
    exact henter

end Dynarec68k
