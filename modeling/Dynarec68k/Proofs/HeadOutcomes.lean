import Dynarec68k.Proofs.MissingCode
import Dynarec68k.Proofs.ServiceTimes

namespace Dynarec68k

open Host Relation Cpu

variable {config : Config} {c c' y : Cpu} {map : MemoryMap} {clocks low : Nat} {P P' : Pair → Prop}
  {target : UInt32}

theorem GuestView.Fresh.decoded {view : GuestView} {ok : UInt32 → Prop} {again : Option UInt32}
    {part : CodeUnit} (h : view.Fresh ok again part) : part.Shaped := by
  have hinstruction (x : UInt32) : (CodeUnit.instruction (view.instructionAt x)).Shaped :=
    CodeUnit.decode_shaped _ _ _
  rcases h.2 with hunit | ⟨-, hunit⟩
  · rw [hunit, GuestView.unitAt]
    split
    · exact hinstruction _
    · trivial
  · rw [hunit]
    exact hinstruction _

/-- Code stays tidy, and its units are decoded ones. -/
def Steady.decoded {config : Config} {map : MemoryMap} (heven : map.KeepsEven)
    (hsound : map.Sound) : Steady config map where
  ok := map.IsHome
  Inv P s := Tidy map P s ∧ ∀ p, P p → p.unit.Shaped
  stays := (Steady.tidy heven hsound).stays
  even := (Steady.tidy heven hsound : Steady config map).even
  opened h := (Steady.tidy heven hsound : Steady config map).opened h.1
  keeps hsole hsole' h hreworked := by
    refine ⟨h.1.keeps hsole hsole' hreworked, fun p hp => ?_⟩
    cases hreworked with
    | redirected => exact h.2 p hp
    | patched => exact h.2 p hp
    | grown hpairs hgrown =>
      subst hpairs
      rcases hgrown.added p hp with hold | ⟨hfresh, -⟩
      · exact h.2 p hold
      · exact hfresh.decoded
    | refreshed hpairs hrefreshed =>
      subst hpairs
      obtain ⟨_, _, -, -, -, hgrown, -⟩ := hrefreshed
      rcases hgrown.added p hp with hold | ⟨hfresh, -⟩
      · exact h.2 p hold
      · exact hfresh.decoded

theorem Schedule.toNat_later {s : Schedule} (ht : s.config.Ticks) (hclocks : clocks < 1024)
    (hroom : s.cycle.toNat + clocks * s.config.clockDivider.toNat < 2 ^ 32) :
    (s.later clocks).cycle.toNat = s.cycle.toNat + clocks * s.config.clockDivider.toNat := by
  rw [later, UInt32.toNat_add, ht.toNat_cycles hclocks, Nat.mod_eq_of_lt hroom]

/-- What is known of a processor all through a run to `target`. Until its end, what is latched is
due. -/
structure Cpu.Underway (config : Config) (map : MemoryMap) (target : UInt32) (P : Pair → Prop)
    (c : Cpu) : Prop where
  ticks : config.Ticks
  even : map.KeepsEven
  room : target.toNat + 1024 * config.clockDivider.toNat ≤ 2 ^ 32
  sole : Sole config map c.view P c.store
  tidy : Tidy map P c.store
  decoded : ∀ p, P p → p.unit.Shaped
  punctual : c.latched.isSome = true → c.cycle < target → c.request.cycle ≤ c.cycle
  target : c.target = target

/-- In the middle of an instruction that began before the end of the run, or just after it. -/
structure Cpu.Midway (config : Config) (map : MemoryMap) (stop : UInt32) (P : Pair → Prop)
    (c : Cpu) : Prop extends c.Underway config map stop P where
  now : c.cycle.toNat ≤ stop.toNat + 256 * config.clockDivider.toNat
  due : c.latched.isSome = true → c.request.cycle ≤ c.cycle

/-- Code goes on with another unit later than `low`, or the run ends, at most so much after its
end. -/
inductive Settles (config : Config) (map : MemoryMap) (target : UInt32) (low : Nat)
    (r : Outcome × Cpu) : Prop where
  | fails {e : CpuError} (outcome : r.1 = .fail e)
  | leaves (outcome : r.1 = .leave) (due : target ≤ r.2.cycle)
      (most : r.2.cycle.toNat ≤ target.toNat + 512 * config.clockDivider.toNat)
  | jumps {P : Pair → Prop} {q : Pair} (hq : P q) (outcome : r.1 = .jump q.left.toUInt32)
      (underway : r.2.Underway config map target P) (least : low < r.2.cycle.toNat)
      (most : r.2.cycle.toNat ≤ target.toNat + 512 * config.clockDivider.toNat)

namespace Cpu.Underway

variable (h : c.Underway config map target P)
include h

theorem config_eq : c.config = config :=
  h.sole.fixed.config

abbrev upkeep (h : c.Underway config map target P) : Upkeep config map fun _ => True :=
  (Steady.decoded h.even h.sole.fixed.mapSound : Steady config map).upkeep

abbrev coupling (h : c.Underway config map target P) : Coupling :=
  alone h.upkeep

theorem twins : h.coupling.Twins P c c :=
  twins_alone h.sole ⟨h.tidy, h.decoded⟩

theorem of_twins (htwins : h.coupling.Twins P' c' y) (htarget : c'.target = c.target)
    (hpunctual : c'.latched.isSome = true → c'.cycle < target → c'.request.cycle ≤ c'.cycle) :
    c'.Underway config map target P' := by
  obtain ⟨hsole, htidy, hdecoded⟩ := (twins_alone_iff
    (U := (Steady.decoded h.even h.sole.fixed.mapSound : Steady config map).upkeep)).mp
    ⟨y, htwins⟩
  exact ⟨h.ticks, h.even, h.room, hsole, htidy, hdecoded, hpunctual, htarget.trans h.target⟩

theorem change (hview : c.view.Similar c'.view) (hstore : c'.store = c.store)
    (htarget : c'.target = c.target)
    (hpunctual : c'.latched.isSome = true → c'.cycle < target → c'.request.cycle ≤ c'.cycle) :
    c'.Underway config map target P where
  ticks := h.ticks
  even := h.even
  room := h.room
  sole := hstore ▸ (matching config _ _ map).similar h.sole hview
  tidy := hstore ▸ h.tidy
  decoded := h.decoded
  target := htarget.trans h.target
  punctual := hpunctual

theorem reworked {store : CodeStore} (hsole : Sole config map c.view P' store)
    (hreworked : Reworked c.view map.IsHome P c.store P' store) :
    Underway config map target P' { c with store := store } := by
  obtain ⟨htidy, hdecoded⟩ := (Steady.decoded h.even h.sole.fixed.mapSound).keeps h.sole hsole
    ⟨h.tidy, h.decoded⟩ hreworked
  exact ⟨h.ticks, h.even, h.room, hsole, htidy, hdecoded, h.punctual, h.target⟩

theorem toNat_later (hclocks : clocks < 1024)
    (hroom : c.cycle.toNat + clocks * config.clockDivider.toNat < 2 ^ 32)
    (hlater : c'.schedule = c.schedule.later clocks) :
    c'.cycle.toNat = c.cycle.toNat + clocks * config.clockDivider.toNat := by
  have hconfig : c.schedule.config = config := h.config_eq
  have hcycle : c'.cycle = (c.schedule.later clocks).cycle := congrArg Schedule.cycle hlater
  have ht : c.schedule.config.Ticks := hconfig ▸ h.ticks
  rw [hcycle, Schedule.toNat_later ht hclocks (by rw [hconfig]; exact hroom), hconfig]
  rfl

theorem midway (hearly : c.cycle < target) : c.Midway config map target P := by
  have hlt := UInt32.lt_iff_toNat_lt.mp hearly
  exact ⟨h, by omega, fun hlatched => h.punctual hlatched hearly⟩

end Cpu.Underway

namespace Cpu.Midway

variable
 (h : c.Midway config map target P)
include h

theorem arrives (htwins : h.coupling.Twins P' c' y) (hmost : clocks ≤ 50)
    (hlater : c'.schedule = c.schedule.later clocks)
    (hlines : c'.latched = none ∨ c'.lines = c.lines)
    (hlow : low < c.cycle.toNat + clocks * config.clockDivider.toNat) :
    c'.Underway config map target P' ∧ low < c'.cycle.toNat ∧
      c'.cycle.toNat ≤ target.toNat + 512 * config.clockDivider.toNat := by
  have hroom := h.room
  have hnow := h.now
  have hspent : clocks * config.clockDivider.toNat ≤ 50 * config.clockDivider.toNat :=
    Nat.mul_le_mul_right _ hmost
  have hpositive := h.ticks.positive
  have hcycle := h.toNat_later (by omega) (by omega) hlater
  refine ⟨?_, by omega, by omega⟩
  refine h.of_twins htwins (congrArg Schedule.target hlater) fun hlatched _ => ?_
  rcases hlines with hnone | hlines
  · rw [hnone] at hlatched
    cases hlatched
  · have hrequest : c'.request = c.request := congrArg InterruptLines.request hlines
    have hsame : c'.latched = c.latched := congrArg InterruptLines.latched hlines
    have hle : c.cycle ≤ c'.cycle := UInt32.le_iff_toNat_le.mpr (by omega)
    rw [hrequest]
    exact UInt32.le_trans (h.due (hsame ▸ hlatched)) hle

theorem settles {r : Outcome × Cpu} (hdiverts : h.coupling.Diverts P r r) (hstays : r.1 ≠ .leave)
    (hmost : clocks ≤ 50) (hlater : r.2.schedule = c.schedule.later clocks)
    (hlines : r.2.latched = none ∨ r.2.lines = c.lines)
    (hlow : low < c.cycle.toNat + clocks * config.clockDivider.toNat) :
    Settles config map target low r := by
  obtain ⟨P', -, htwins, ⟨q, hq, hleft, -⟩ | ⟨hleave, -⟩ | ⟨e, -, hfail, -⟩⟩ := hdiverts
  · obtain ⟨hunderway, hleast, hlast⟩ := h.arrives htwins hmost hlater hlines hlow
    exact .jumps hq hleft hunderway hleast hlast
  · exact absurd hleave hstays
  · exact .fails hfail

theorem lands {r : Except CpuError CodePtr × Cpu} (hlands : h.coupling.Lands P r r) {vector : Nat}
    (hlater : r.2.schedule = c.schedule.later (ExceptionVector.clocks vector))
    (hlines : r.2.latched = none ∨ r.2.lines = c.lines) (hlow : low ≤ c.cycle.toNat) :
    Settles config map target low (.ofEntry r.1, r.2) := by
  obtain ⟨hleast, hmost⟩ := ExceptionVector.clocks_bounds vector
  have hspent := Nat.mul_pos (Nat.lt_of_lt_of_le (by decide : 0 < 30) hleast) h.ticks.positive
  exact h.settles hlands.diverts (Outcome.ofEntry_ne_leave r.1) hmost hlater hlines (by omega)

end Cpu.Midway

namespace Cpu.Underway

theorem synchronize (h : c.Underway config map target P) (address : UInt32)
    (hfits : (c.synchronize address).2.Fits) :
    (target ≤ c.cycle ∨ c.returnRequested = true) ∧
        c.synchronize address = (.leave, { c with pc := address }) ∨
      c.cycle < target ∧
        (c.synchronize address = (.proceed, c.latch) ∧ c.latch.Underway config map target P ∨
          Settles config map target c.cycle.toNat (c.synchronize address)) := by
  by_cases hover : c.target ≤ c.cycle ∨ c.returnRequested = true
  · exact .inl ⟨h.target ▸ hover, synchronize_over hover⟩
  have hearly : c.cycle < target := by
    rw [← h.target]
    exact UInt32.not_le.mp fun hle => hover (.inl hle)
  refine .inr ⟨hearly, ?_⟩
  by_cases htrace : c.tracePending = true
  · rw [synchronize_traced hover htrace] at hfits ⊢
    have huntraced : Underway config map target P { c with tracePending := false } :=
      h.change (.refl _) rfl rfl h.punctual
    have hlands := huntraced.twins.takeException ExceptionVector.trace address
      (fit_alone hfits)
    exact .inr ((huntraced.midway hearly).lands hlands (schedule_takeException _ _ _)
      (.inr (lasting_lines.exception _ _ _)) (Nat.le_refl _))
  cases hlatched : c.latched with
  | some level =>
    rw [synchronize_latched hover htrace hlatched] at hfits ⊢
    have hunlatched : Underway config map target P { c with latched := none } :=
      h.change (.refl _) rfl rfl nofun
    have hlands := hunlatched.twins.takeInterrupt level address (fit_alone hfits)
    exact .inr ((hunlatched.midway hearly).lands hlands (schedule_takeInterrupt _ _ _)
      (.inl (congrArg InterruptLines.latched (lines_takeInterrupt _ level address rfl)))
      (Nat.le_refl _))
  | none =>
    refine .inl ⟨synchronize_quiet hover htrace hlatched, ?_⟩
    refine h.change (.refl _) rfl rfl fun hnow _ => ?_
    have hnow : (if c.request.cycle ≤ c.cycle then c.deliverable? else c.latched).isSome = true :=
      hnow
    split at hnow
    · assumption
    · rw [hlatched] at hnow
      cases hnow

theorem early (h : c.Underway config map target P) (htimely : c.Timely)
    (hlimit : c.cycle < c.limit) : c.cycle < target := by
  rw [← h.target]
  refine UInt32.not_le.mp fun hover => ?_
  exact UInt32.not_le.mpr hlimit (UInt32.le_trans htimely (dueLimit_le (.inl hover)))

theorem passBreakpoint (h : c.Underway config map target P) (htimely : c.Timely) (address : UInt32)
    (hfits : (c.passBreakpoint address).2.Fits) :
    (target ≤ c.cycle ∨ c.returnRequested = true) ∧
        c.passBreakpoint address = (.leave, { c with pc := address, skipped := some address }) ∨
      c.cycle < target ∧
        ((∃ c', c.passBreakpoint address = (.resume breakpointResume, c') ∧
            c'.Underway config map target P ∧ c'.schedule = c.schedule) ∨
          Settles config map target c.cycle.toNat (c.passBreakpoint address)) := by
  by_cases hlimit : c.limit ≤ c.cycle
  · rw [Cpu.passBreakpoint, if_pos hlimit] at hfits ⊢
    have hfits' : (c.synchronize address).2.Fits := by
      split at hfits <;> rename_i heq <;> rw [heq] <;> exact hfits
    rcases h.synchronize address hfits' with
      ⟨hover, heq⟩ | ⟨hearly, ⟨heq, hlatch⟩ | hsettles⟩
    · rw [heq]
      exact .inl ⟨hover, rfl⟩
    · rw [heq]
      exact .inr ⟨hearly, .inl ⟨_, rfl, hlatch, rfl⟩⟩
    · refine .inr ⟨hearly, .inr ?_⟩
      generalize c.synchronize address = r at hsettles
      obtain ⟨outcome, c'⟩ := r
      cases hsettles with
      | fails houtcome =>
        obtain rfl : outcome = _ := houtcome
        exact .fails rfl
      | leaves houtcome hdue hmost =>
        obtain rfl : outcome = _ := houtcome
        exact .leaves rfl hdue hmost
      | jumps hq houtcome hunderway hleast hmost =>
        obtain rfl : outcome = _ := houtcome
        exact .jumps hq rfl (hunderway.change (.refl _) rfl rfl hunderway.punctual) hleast hmost
  · rw [Cpu.passBreakpoint, if_neg hlimit]
    exact .inr ⟨h.early htimely (UInt32.not_le.mp hlimit), .inl ⟨c, rfl, h, rfl⟩⟩

end Cpu.Underway

namespace Session

/-- A run as it should be from here on: code fits, and the limit is never too late. -/
structure Orderly (s : Session) : Prop where
  fits : ∀ t, ReflTransGen Advances s t → t.step.cpu.Fits
  timely : ∀ t, ReflTransGen Advances s t → t.asked.Timely

theorem Orderly.later {s t : Session} (h : s.Orderly) (hpath : ReflTransGen Advances s t) :
    t.Orderly where
  fits u hu := h.fits u (hpath.trans hu)
  timely u hu := h.timely u (hpath.trans hu)

theorem Orderly.served {s t : Session} (h : s.Orderly) (hpath : ReflTransGen Advances s t)
    {service : Service} (hstep : t.step = t.serve service) : (t.served service).cpu.Fits := by
  have hfits := h.fits t hpath
  rw [hstep] at hfits
  exact (t.fits_served service).mp hfits

/-- In the code of a unit, so many operations behind its beginning, with no call open. -/
structure InUnit (config : Config) (map : MemoryMap) (target : UInt32) (P : Pair → Prop) (p : Pair)
    (offset : Nat) (s : Session) : Prop where
  underway : s.asked.Underway config map target P
  member : P p
  site : s.site = (p.left + offset).toUInt32
  ready : s.machine.Ready

/-- The handler of a breakpoint is about to end the run. -/
def HandlerStops (s : Session) : Prop :=
  s.step = s.serve .breakpoint ∧
    ∃ breakpoint, s.asked.breakpoints[s.machine.state.reg Role.scratch1]? = some breakpoint ∧
      ¬s.asked.skipped = some (s.machine.state.reg Role.scratch1) ∧
      breakpoint.answers breakpoint.calls = .stop

/-- A run comes to the head of another unit later than `low`, or ends, at most so much after its
end. -/
inductive Closes (config : Config) (map : MemoryMap) (target : UInt32) (low : Nat) (s : Session) :
    Prop where
  | fails {t : Session} {e : CpuError} {c : Cpu} (path : ReflTransGen Advances s t)
      (step : t.step = .done (.error e) c)
  | ended {t : Session} {c : Cpu} (path : ReflTransGen Advances s t)
      (step : t.step = .done (.ok ()) c) (due : target ≤ c.cycle)
      (most : c.cycle.toNat ≤ target.toNat + 512 * config.clockDivider.toNat)
  | moves {t : Session} {P : Pair → Prop} {q : Pair} (path : ReflTransGen Advances s t)
      (head : t.InUnit config map target P q 0) (least : low < t.asked.cycle.toNat)
      (most : t.asked.cycle.toNat ≤ target.toNat + 512 * config.clockDivider.toNat)

/-- What comes of a session at the head of a unit. Only before the end of the run is there anything
but to leave. -/
inductive Opens (config : Config) (map : MemoryMap) (target : UInt32) (s : Session) : Prop where
  | ended {t : Session} {c : Cpu} (path : ReflTransGen Advances s t)
      (step : t.step = .done (.ok ()) c) (cycle : c.cycle = s.asked.cycle)
      (registers : c.registers = s.asked.registers)
      (chunks : c.memory.chunks = s.asked.memory.chunks)
      (why : target ≤ c.cycle ∨ c.returnRequested = true ∨ t.HandlerStops)
  | diverts (early : s.asked.cycle < target)
      (closes : s.Closes config map target s.asked.cycle.toNat)
  | enters {t : Session} {P : Pair → Prop} {q : Pair} (early : s.asked.cycle < target)
      (path : ReflTransGen Advances s t) (body : t.InUnit config map target P q 4)
      (same : t.asked.schedule = s.asked.schedule)

section

variable {p : Pair}
  {s t : Session} {service : Service} {opened checked : UInt32}

theorem Closes.earlier (h : t.Closes config map target low) (hpath : ReflTransGen Advances s t) :
    s.Closes config map target low := by
  cases h with
  | fails path step => exact .fails (hpath.trans path) step
  | ended path step due most => exact .ended (hpath.trans path) step due most
  | moves path head least most => exact .moves (hpath.trans path) head least most

theorem Closes.of_settles (hpath : ReflTransGen Advances s t) (hstep : t.step = t.serve service)
    (hsettles : Settles config map target low ((t.served service).outcome, (t.served service).cpu)) :
    s.Closes config map target low := by
  cases hsettles with
  | fails houtcome => exact .fails hpath (hstep.trans (serve_fail houtcome))
  | leaves houtcome hdue hmost => exact .ended hpath (hstep.trans (serve_leave houtcome)) hdue hmost
  | @jumps P q hq houtcome hunderway hleast hmost =>
    have hasked : (t.back service q.left.toUInt32).asked = (t.served service).cpu :=
      storeHost_loadHost _ _
    rw [← hasked] at hunderway hleast hmost
    exact .moves (hpath.tail (hstep.trans (serve_jump houtcome)))
      ⟨hunderway, hq, rfl, back_ready _ _ _⟩ hleast hmost

theorem Opens.earlier (h : t.Opens config map target) (hpath : ReflTransGen Advances s t)
    (hsame : ∃ store, t.asked = { s.asked with store := store }) : s.Opens config map target := by
  obtain ⟨store, hsame⟩ := hsame
  have hcycle : t.asked.cycle = s.asked.cycle := by rw [hsame]
  have hschedule : t.asked.schedule = s.asked.schedule := by
    rw [hsame]
    rfl
  have hregisters : t.asked.registers = s.asked.registers := by rw [hsame]
  have hchunks : t.asked.memory.chunks = s.asked.memory.chunks := by rw [hsame]
  cases h with
  | ended path step cycle registers chunks why =>
    exact .ended (hpath.trans path) step (cycle.trans hcycle) (registers.trans hregisters)
      (chunks.trans hchunks) why
  | diverts early closes => exact .diverts (hcycle ▸ early) (hcycle ▸ closes.earlier hpath)
  | enters early path body same =>
    exact .enters (hcycle ▸ early) (hpath.trans path) body (same.trans hschedule)

theorem Opens.idle (h : t.Opens config map target) (hidles : Idles s t) :
    s.Opens config map target :=
  h.earlier hidles.path ⟨s.asked.store, hidles.asked⟩

theorem Opens.of_settles (hearly : s.asked.cycle < target) (hpath : ReflTransGen Advances s t)
    (hstep : t.step = t.serve service) {r : Outcome × Cpu}
    (hserved : t.served service = .ofOutcome r)
    (hsettles : Settles config map target s.asked.cycle.toNat r) : s.Opens config map target := by
  refine .diverts hearly (.of_settles hpath hstep ?_)
  rw [hserved]
  exact hsettles

variable (h : s.InUnit config map target P p 0)
include h

variable (horderly : s.Orderly)
include horderly

theorem opens_boundary (hhead : s.cpu.store.code.HeadAt p.left .boundary opened checked none) :
    s.Opens config map target := by
  have hlinked := (matching config _ _ map).linked h.underway.sole
  by_cases hlimit : s.asked.cycle < s.asked.limit
  · have hearly := h.underway.early (horderly.timely s .refl) hlimit
    have hidles := at_boundary_early hlinked.roomLeft h.site hhead hlimit
    refine .enters hearly hidles.path ⟨?_, h.member, rfl, h.ready.context, h.ready.stack⟩
      (congrArg schedule hidles.asked)
    rw [hidles.asked]
    exact h.underway
  · obtain ⟨t, hcalls⟩ := at_boundary_due hlinked.roomLeft h.site hlinked.gatesLeft hhead
      (UInt32.not_lt.mp hlimit)
    have hserved : t.served .synchronize = .ofOutcome (s.asked.synchronize checked) := by
      rw [← hcalls.asked, ← hcalls.first]
      rfl
    have hfits : (s.asked.synchronize checked).2.Fits := by
      have hfits := horderly.served hcalls.path hcalls.step
      rw [Gate.service, hserved] at hfits
      exact hfits
    rcases h.underway.synchronize checked hfits with
      ⟨hover, heq⟩ | ⟨hearly, ⟨heq, hlatch⟩ | hsettles⟩
    · rw [heq] at hserved
      have hstep : t.step = .done (.ok ()) { s.asked with pc := checked } := by
        have hleave := serve_leave (congrArg Served.outcome hserved)
        rw [hserved] at hleave
        exact hcalls.step.trans hleave
      exact .ended hcalls.path hstep rfl rfl rfl (hover.imp_right .inl)
    · rw [heq] at hserved
      have hproceed : (t.served .synchronize).outcome = .proceed :=
        congrArg Served.outcome hserved
      have hback : (t.back .synchronize (p.left + 4).toUInt32).asked = s.asked.latch :=
        (storeHost_loadHost _ _).trans (congrArg Served.cpu hserved)
      have hstore : (t.served .synchronize).cpu.store = s.cpu.store :=
        congrArg (fun served : Served => served.cpu.store) hserved
      have hpath := hcalls.returns rfl h.ready.stack hproceed
        (by rw [Gate.service, hstore]; exact hlinked.roomLeft)
        (by rw [Gate.service, hstore]; exact hlinked.gatesLeft)
      refine .enters hearly hpath ⟨?_, h.member, rfl, back_ready _ _ _⟩ ?_
      · rw [Gate.service, Nat.add_zero, hback]
        exact hlatch
      · rw [Gate.service, Nat.add_zero, hback]
        rfl
    · exact .of_settles hearly hcalls.path hcalls.step hserved hsettles

theorem opens_passing (hcalls : s.Calls .breakpoint opened (p.left + 2).toUInt32 t)
    (hunderway : c.Underway config map target P) (htimely : c.Timely)
    (hcycle : c.schedule = s.asked.schedule) (hregisters : c.registers = s.asked.registers)
    (hchunks : c.memory.chunks = s.asked.memory.chunks)
    (hserved : t.served .breakpoint = .ofOutcome (c.passBreakpoint opened)) :
    s.Opens config map target := by
  have hnow : c.cycle = s.asked.cycle := congrArg Schedule.cycle hcycle
  have hfits : (c.passBreakpoint opened).2.Fits := by
    have hfits := horderly.served hcalls.path hcalls.step
    rw [Gate.service, hserved] at hfits
    exact hfits
  rcases hunderway.passBreakpoint htimely opened hfits with
    ⟨hover, heq⟩ | ⟨hearly, ⟨c', heq, hunderway', hsame⟩ | hsettles⟩
  · rw [heq] at hserved
    have hstep : t.step = .done (.ok ()) { c with pc := opened, skipped := some opened } := by
      have hleave := serve_leave (congrArg Served.outcome hserved)
      rw [hserved] at hleave
      exact hcalls.step.trans hleave
    exact .ended hcalls.path hstep hnow hregisters hchunks (hover.imp_right .inl)
  · rw [heq] at hserved
    have hstack : t.machine.state.stack = [(p.left + 2).toUInt32] := by
      rw [hcalls.stack, h.ready.stack]
    have hresume := serve_resume (congrArg Served.outcome hserved) hstack
    have hback (site : CodePtr) : (t.back .breakpoint site).asked = c' :=
      (storeHost_loadHost _ _).trans (congrArg Served.cpu hserved)
    refine .enters (hnow ▸ hearly) (hcalls.path.tail (hcalls.step.trans hresume))
      ⟨?_, h.member, (toUInt32_add (p.left + 2) 2).symm, back_ready _ _ _⟩ ?_
    · rw [hback]
      exact hunderway'
    · rw [hback]
      exact hsame.trans hcycle
  · exact .of_settles (hnow ▸ hearly) hcalls.path hcalls.step hserved (hnow ▸ hsettles)

theorem opens_breakpoint (hhead : s.cpu.store.code.HeadAt p.left .breakpoint opened checked none)
    {breakpoint : Breakpoint} (hfound : s.asked.breakpoints[opened]? = some breakpoint) :
    s.Opens config map target := by
  have hlinked := (matching config _ _ map).linked h.underway.sole
  obtain ⟨t, hcalls⟩ := at_breakpoint hlinked.roomLeft h.site hlinked.gatesLeft hhead
  have hserved : t.served .breakpoint = .ofOutcome (s.asked.hitBreakpoint opened) := by
    rw [← hcalls.asked, ← hcalls.first]
    rfl
  by_cases hskip : s.asked.skipped = some opened
  · rw [hitBreakpoint_skipped hfound hskip] at hserved
    have hunderway : Underway config map target P { s.asked with skipped := none } :=
      h.underway.change (.refl _) rfl rfl h.underway.punctual
    exact opens_passing h horderly hcalls hunderway (horderly.timely s .refl) rfl rfl rfl hserved
  · rw [hitBreakpoint_called hfound hskip] at hserved
    cases hanswer : breakpoint.answers breakpoint.calls with
    | stop =>
      rw [hanswer] at hserved
      have hhalts : t.HandlerStops := by
        refine ⟨hcalls.step, breakpoint, ?_, ?_, hanswer⟩
        · rw [hcalls.asked, hcalls.first]
          exact hfound
        · rw [hcalls.asked, hcalls.first]
          exact hskip
      have hleave := serve_leave (congrArg Served.outcome hserved)
      rw [hserved] at hleave
      exact .ended hcalls.path (hcalls.step.trans hleave) rfl rfl rfl (.inr (.inr hhalts))
    | proceed =>
      rw [hanswer] at hserved
      have hunderway : (s.asked.callHandler opened breakpoint).2.Underway config map target P :=
        h.underway.change (callHandler_view breakpoint hfound) rfl rfl h.underway.punctual
      exact opens_passing h horderly hcalls hunderway (horderly.timely s .refl) rfl rfl rfl
        hserved

theorem opens_new (hhead : p.unit.HeadedAt s.cpu.view s.cpu.store.code p.left) :
    s.Opens config map target := by
  rw [CodeUnit.HeadedAt] at hhead
  rcases p.unit.newKind_cases s.cpu.view with hkind | ⟨hkind, hbreakpoint⟩
  · rw [hkind] at hhead
    exact opens_boundary h horderly hhead
  · rw [hkind] at hhead
    obtain ⟨breakpoint, hfound⟩ := Option.isSome_iff_exists.mp
      (Std.TreeMap.isSome_getElem?_eq_contains.trans hbreakpoint)
    exact opens_breakpoint h horderly hhead hfound

theorem opens_redirected (hhead : s.cpu.store.code.HeadAt p.left .redirected opened checked none) :
    s.Opens config map target := by
  have hsole := h.underway.sole
  have hlinked := (matching config _ _ map).linked hsole
  obtain ⟨t, henters⟩ := at_redirected hlinked.roomLeft h.site hlinked.gatesLeft hhead
  let again := s.cpu.store.refresh s.cpu.view opened
  have hserved : t.served .refresh = ⟨.jump again.1, { s.asked with store := again.2 }, none⟩ := by
    rw [served, henters.asked, Cpu.serve, henters.first]
    rfl
  obtain ⟨u, hserve, hsite, hcpu, hasked, hready⟩ := lands hserved
  have hpath : ReflTransGen Advances s u := henters.path.tail (henters.step.trans hserve)
  have hfits : again.2.Fits := by
    have hfits := horderly.served henters.path henters.step
    rw [Gate.service, hserved] at hfits
    exact hfits
  have hhome := (Steady.tidy h.underway.even hsole.fixed.mapSound : Steady config map).opened
    h.underway.tidy h.member hhead
  obtain ⟨pairs, pairs', q, rfl, hsole', hrefreshed, hq, hnew, hleft, -⟩ :=
    hsole.refresh (hsole.fixed.stays_even h.underway.even) hhome hfits
  have hheaded := hrefreshed.headed hsole hsole' hq hnew
  have hunderway := h.underway.reworked hsole' (.refreshed rfl hrefreshed)
  have hopens : u.Opens config map target := by
    refine opens_new ⟨?_, hq, hsite.trans hleft, hready⟩ (horderly.later hpath) ?_
    · rw [hasked]
      exact hunderway
    · rw [hcpu]
      exact hheaded
  exact hopens.earlier hpath ⟨again.2, hasked⟩

theorem opens_restored (hhead : s.cpu.store.code.HeadAt p.left .breakpoint opened checked none)
    (hgone : s.asked.breakpoints[opened]? = none)
    (hlookup : s.cpu.store.lookup opened = some p.left.toUInt32) : s.Opens config map target := by
  have hsole := h.underway.sole
  obtain ⟨q, t, u, hq, heq, hidles, hstep, hsite, hready, hcpu, hasked, hsole', hhead'⟩ :=
    restores hsole h.site hhead hgone hlookup
  obtain rfl := hsole.left_inj h.member hq heq
  have hpath : ReflTransGen Advances s u := hidles.path.tail hstep
  have hunderway := h.underway.reworked (hsole.restored hq hlookup)
    (hsole.restoreBoundary hq hlookup)
  have hopens : u.Opens config map target := by
    refine opens_boundary ⟨?_, hq, hsite, hready⟩ (horderly.later hpath) hhead'
    rw [hasked]
    exact hunderway
  exact hopens.earlier hpath ⟨_, hasked⟩

/-- At the head of a unit. Old code leads to newer code, of which there is only so much. -/
theorem InUnit.opens : s.Opens config map target := by
  induction hrest : s.cpu.store.code.ops.size - p.left using Nat.strongRecOn generalizing s p with
  | ind rest ih =>
    have hsole := h.underway.sole
    rcases h.underway.tidy.heads p h.member with ⟨hlookup, kind, hhead⟩ | ⟨q, hq, -, hlt, hjump⟩
    · cases kind with
      | boundary => exact opens_boundary h horderly hhead
      | redirected => exact opens_redirected h horderly hhead
      | breakpoint =>
        cases hfound : s.asked.breakpoints[p.unit.address]? with
        | some breakpoint => exact opens_breakpoint h horderly hhead hfound
        | none => exact opens_restored h horderly hhead hfound hlookup
    · have hwithin : q.left + 4 ≤ s.cpu.store.code.ops.size ∧
          s.cpu.store.code.ops.size < 2 ^ 31 := hsole.within hq
      have hgoto : Idles s (s.goto q.left.toUInt32) :=
        .goto (step_jumpsTo hwithin.2 h.site hjump)
      have hopens : (s.goto q.left.toUInt32).Opens config map target :=
        ih (s.cpu.store.code.ops.size - q.left) (by omega) ⟨h.underway, hq, rfl, h.ready⟩
          (horderly.later hgoto.path) rfl
      exact hopens.idle hgoto

end

end Session

end Dynarec68k
