import Dynarec68k.Proofs.Coupling

namespace Dynarec68k

open Host Role Cpu ExceptionVector

variable {cpu x y : Cpu} {address checked : UInt32} {breakpoint : Breakpoint}

namespace Coupling

variable (C : Coupling) (P : Pair → Prop)

def Proceeds (r r' : Outcome × Cpu) : Prop :=
  C.Twins P r.2 r'.2 ∧ r.1 = .proceed ∧ r'.1 = .proceed

def Diverts (r r' : Outcome × Cpu) : Prop :=
  ∃ P' : Pair → Prop, C.Adds P P' r.2 ∧ C.Twins P' r.2 r'.2 ∧
    ((∃ q, P' q ∧ r.1 = .jump q.left.toUInt32 ∧ r'.1 = .jump q.right.toUInt32) ∨
      r.1 = .leave ∧ r'.1 = .leave ∨
      ∃ e : CpuError, e.isGuest = true ∧ r.1 = .fail e ∧ r'.1 = .fail e)

variable {C P}

theorem Lands.diverts {r r' : Except CpuError CodePtr × Cpu} (h : C.Lands P r r') :
    C.Diverts P (.ofEntry r.1, r.2) (.ofEntry r'.1, r'.2) := by
  obtain ⟨P', hadds, htwins, ⟨q, hq, hr, hr'⟩ | ⟨e, he, hr, hr'⟩⟩ := h
  · refine ⟨P', hadds, htwins, .inl ⟨q, hq, ?_, ?_⟩⟩
    · rw [hr]
      rfl
    · rw [hr']
      rfl
  · refine ⟨P', hadds, htwins, .inr (.inr ⟨e, he, ?_, ?_⟩)⟩
    · rw [hr]
      rfl
    · rw [hr']
      rfl

theorem Diverts.change {r r' : Outcome × Cpu} (h : C.Diverts P r r') (f : Cpu → Cpu)
    (htwin : ∀ (c : Cpu) a s, f (c.twin a s) = (f c).twin a s)
    (hview : ∀ c : Cpu, c.view.Similar (f c).view) :
    C.Diverts P (r.1, f r.2) (r'.1, f r'.2) := by
  obtain ⟨P', hadds, htwins, houtcomes⟩ := h
  have hstore : (f r.2).store = r.2.store := by
    obtain ⟨c, s, t, hr, -, -⟩ := htwins
    rw [hr, htwin]
    rfl
  exact ⟨P', hadds.change hstore (hview r.2), htwins.change f htwin hview, houtcomes⟩

end Coupling

theorem Cpu.enterException_cases (cpu : Cpu) (vector : Nat) (pc : UInt32) :
    (∃ target, (cpu.enterException vector pc).1 = .ok target) ∨
      ∃ e : CpuError, e.isGuest = true ∧ (cpu.enterException vector pc).1 = .error e :=
  (vectorTo_cases _ vector).imp_left fun ⟨target, _, htarget⟩ => ⟨target, htarget⟩

namespace Coupling.Twins

variable {C : Coupling} {P : Pair → Prop}

variable (h : C.Twins P x y) (vector : Nat) (level : UInt8) (pc : UInt32)
include h

theorem entered {f : Cpu → UInt32 → Except CpuError CodePtr × Cpu}
    (hf : ∀ {x y : Cpu}, C.Twins P x y → ∀ handler,
      C.Fitting (C.Lands P) (f x handler) (f y handler))
    {g : Cpu → Except CpuError CodePtr × Cpu}
    (hg : ∀ cpu, g cpu = match cpu.enterException vector pc with
      | (.error error, cpu) => (.error error, cpu)
      | (.ok handler, cpu) => f cpu handler) : C.Fitting (C.Lands P) (g x) (g y) := by
  obtain ⟨hsame, htwins⟩ := h.enterException vector pc
  have hcases := x.enterException_cases vector pc
  rw [hg, hg]
  generalize x.enterException vector pc = r at hsame htwins hcases ⊢
  generalize y.enterException vector pc = r' at hsame htwins ⊢
  obtain ⟨handler, x'⟩ := r
  obtain ⟨handler', y'⟩ := r'
  obtain rfl : handler = handler' := hsame
  rcases hcases with ⟨target, rfl⟩ | ⟨e, he, rfl⟩
  · exact hf htwins target
  · exact fun _ => ⟨P, .refl _, htwins, .inr ⟨e, he, rfl, rfl⟩⟩

theorem takeException :
    C.Fitting (C.Lands P) (x.takeException vector pc) (y.takeException vector pc) :=
  h.entered vector pc (f := fun cpu handler => cpu.resolve handler none)
    (g := fun cpu => cpu.takeException vector pc)
    (fun htwins handler => htwins.resolve handler none) fun _ => rfl

theorem acknowledge : C.Twins P (x.acknowledge level) (y.acknowledge level) := by
  refine h.change (·.acknowledge level) (fun c a s => ?_) fun c => ?_
  · unfold Cpu.acknowledge
    dsimp only [twin]
    split <;> rfl
  · unfold Cpu.acknowledge
    dsimp only
    split
    · exact ⟨rfl, rfl, rfl, rfl⟩
    · exact .refl _

theorem raised (mask : UInt16) (handler : UInt32) :
    C.Fitting (C.Lands P)
      ((x.setSr ((x.registers.sr &&& 0xF8FF) ||| mask)).resolve handler none)
      ((y.setSr ((y.registers.sr &&& 0xF8FF) ||| mask)).resolve handler none) := by
  rw [h.registers]
  exact (h.setSr _).resolve handler none

theorem takeInterrupt :
    C.Fitting (C.Lands P) (x.takeInterrupt level pc) (y.takeInterrupt level pc) := by
  have hseen := h.acknowledge level
  unfold Cpu.takeInterrupt
  generalize x.acknowledge level = x' at hseen ⊢
  generalize y.acknowledge level = y' at hseen ⊢
  exact hseen.entered (autovector + level.toNat) pc
    (fun htwins handler => htwins.raised _ handler) fun _ => rfl

theorem returnFromException (origin : Option UInt32) :
    C.Fitting (C.Lands P) (x.returnFromException origin) (y.returnFromException origin) := by
  obtain ⟨hsr, htwins⟩ := h.plain (Cpu.plain_read16 (x.registers.a 7))
  simp only [Cpu.returnFromException, h.registers, ← hsr]
  generalize (x.read16 (x.registers.a 7)).1 = sr
  generalize x.registers.a 7 = sp at htwins ⊢
  generalize (x.read16 sp).2 = x' at htwins ⊢
  generalize (y.read16 sp).2 = y' at htwins ⊢
  obtain ⟨hpc, htwins'⟩ := htwins.plain (Cpu.plain_read32 (sp + 2))
  simp only [← hpc]
  generalize (x'.read32 (sp + 2)).1 = pc
  refine Twins.resolve ?_ pc origin
  exact ((htwins'.setA 7 (sp + 6)).setSr sr).change (fun c => { c with pc := pc })
    (fun _ _ _ => rfl) fun _ => .refl _

end Coupling.Twins

/-- How code goes on after a wait. -/
def Outcome.ofWake : Except CpuError (Option CodePtr) → Outcome
  | .ok (some native) => .jump native
  | .ok none => .leave
  | .error error => .fail error

namespace Cpu

theorem synchronize_over (h : cpu.target ≤ cpu.cycle ∨ cpu.returnRequested = true) :
    cpu.synchronize address = (.leave, { cpu with pc := address }) :=
  if_pos h

section

variable (h : ¬(cpu.target ≤ cpu.cycle ∨ cpu.returnRequested = true))
include h

theorem synchronize_traced (htrace : cpu.tracePending = true) :
    cpu.synchronize address =
      (.ofEntry ({ cpu with tracePending := false }.takeException trace address).1,
        ({ cpu with tracePending := false }.takeException trace address).2) := by
  rw [synchronize, if_neg h, if_pos htrace]

theorem synchronize_latched (htrace : ¬cpu.tracePending = true) {level : UInt8}
    (hlevel : cpu.latched = some level) :
    cpu.synchronize address =
      (.ofEntry ({ cpu with latched := none }.takeInterrupt level address).1,
        ({ cpu with latched := none }.takeInterrupt level address).2) := by
  rw [synchronize, if_neg h, if_neg htrace, hlevel]

theorem synchronize_quiet (htrace : ¬cpu.tracePending = true) (hlevel : cpu.latched = none) :
    cpu.synchronize address = (.proceed, cpu.latch) := by
  rw [synchronize, if_neg h, if_neg htrace, hlevel]

end

def roused (cpu : Cpu) : Cpu :=
  { cpu with
    latched := none
    cycle := if cpu.request.cycle = 0xFFFFFFFF then cpu.cycle else max cpu.cycle cpu.request.cycle
    stopped := false }

theorem wake_some {level : UInt8} (h : cpu.wakeLevel? = some level) :
    cpu.wake = ((cpu.roused.takeInterrupt level cpu.pc).1.map some,
      (cpu.roused.takeInterrupt level cpu.pc).2) := by
  simp only [wake, h, roused]
  generalize takeInterrupt _ level cpu.pc = r
  obtain ⟨entry, woken⟩ := r
  cases entry <;> rfl

def halted (cpu : Cpu) (sr : UInt16) (next : UInt32) : Cpu :=
  { cpu.setSr sr with pc := next, stopped := true }

theorem stop_eq (cpu : Cpu) (sr : UInt16) (next : UInt32) :
    cpu.stop sr next = (.ofWake (cpu.halted sr next).wake.1, (cpu.halted sr next).wake.2) := by
  simp only [stop, halted]
  generalize wake _ = r
  obtain ⟨entry, woken⟩ := r
  rcases entry with error | _ | native <;> rfl

end Cpu

/-- Neither processor comes to code, or both do as `Lands` says. -/
def Coupling.Enters (C : Coupling) (P : Pair → Prop)
    (r r' : Except CpuError (Option CodePtr) × Cpu) : Prop :=
  (C.Twins P r.2 r'.2 ∧ r.1 = .ok none ∧ r'.1 = .ok none) ∨
    ∃ entry entry', C.Lands P (entry, r.2) (entry', r'.2) ∧ r.1 = entry.map some ∧
      r'.1 = entry'.map some

namespace Coupling.Twins

variable {C : Coupling} {P : Pair → Prop}

theorem synchronize (h : C.Twins P x y) (address : UInt32)
    (hfit : C.Fit (x.synchronize address).2 (y.synchronize address).2) :
    C.Proceeds P (x.synchronize address) (y.synchronize address) ∨
      C.Diverts P (x.synchronize address) (y.synchronize address) := by
  have hdone : (y.target ≤ y.cycle ∨ y.returnRequested = true) =
      (x.target ≤ x.cycle ∨ x.returnRequested = true) :=
    h.reading (fun c => c.target ≤ c.cycle ∨ c.returnRequested = true) fun _ _ _ => rfl
  have hpending : y.tracePending = x.tracePending := h.reading tracePending fun _ _ _ => rfl
  have hlatched : y.latched = x.latched := h.reading latched fun _ _ _ => rfl
  by_cases hover : x.target ≤ x.cycle ∨ x.returnRequested = true
  · rw [synchronize_over hover, synchronize_over (hdone ▸ hover)]
    exact .inr ⟨P, .refl _, h.change (fun c => { c with pc := address })
      (fun _ _ _ => rfl) fun _ => .refl _, .inr (.inl ⟨rfl, rfl⟩)⟩
  have hover' := hdone ▸ hover
  by_cases htrace : x.tracePending = true
  · rw [synchronize_traced hover htrace,
      synchronize_traced hover' (hpending.trans htrace)] at hfit ⊢
    have hcleared := h.change (fun c => { c with tracePending := false })
      (fun _ _ _ => rfl) fun _ => .refl _
    exact .inr (hcleared.takeException _ _ hfit).diverts
  have htrace' := hpending.symm ▸ htrace
  cases hlevel : x.latched with
  | some level =>
    rw [synchronize_latched hover htrace hlevel,
      synchronize_latched hover' htrace' (hlatched.trans hlevel)] at hfit ⊢
    have hcleared := h.change (fun c => { c with latched := none })
      (fun _ _ _ => rfl) fun _ => .refl _
    exact .inr (hcleared.takeInterrupt _ _ hfit).diverts
  | none =>
    rw [synchronize_quiet hover htrace hlevel,
      synchronize_quiet hover' htrace' (hlatched.trans hlevel)]
    exact .inl ⟨h.change latch (fun _ _ _ => rfl) fun _ => .refl _, rfl, rfl⟩

theorem wake (h : C.Twins P x y) : C.Fitting (C.Enters P) x.wake y.wake := by
  have hlevel : y.wakeLevel? = x.wakeLevel? := h.reading wakeLevel? fun _ _ _ => rfl
  cases hwake : x.wakeLevel? with
  | none =>
    rw [Cpu.wake, Cpu.wake, hlevel, hwake]
    exact fun _ => .inl ⟨h.change (fun c =>
      { c with latched := none, cycle := max c.cycle c.target })
      (fun _ _ _ => rfl) fun _ => .refl _, rfl, rfl⟩
  | some level =>
    have hroused := h.change roused (fun _ _ _ => rfl) fun _ => .refl _
    have hpc : y.pc = x.pc := h.reading pc fun _ _ _ => rfl
    rw [wake_some hwake, wake_some (hlevel.trans hwake), hpc]
    exact fun hfit => .inr ⟨_, _, hroused.takeInterrupt level x.pc hfit, rfl, rfl⟩

theorem enter (h : C.Twins P x y) : C.Fitting (C.Enters P) x.enter y.enter := by
  have hstopped : y.stopped = x.stopped := h.reading stopped fun _ _ _ => rfl
  have hpc : y.pc = x.pc := h.reading pc fun _ _ _ => rfl
  have henter (cpu : Cpu) (hrunning : ¬cpu.stopped = true) : cpu.enter =
      ((cpu.resolve cpu.pc none).1.map some, (cpu.resolve cpu.pc none).2) := by
    rw [Cpu.enter, if_neg hrunning]
    obtain ⟨entry, found⟩ := cpu.resolve cpu.pc none
    cases entry <;> rfl
  by_cases hasleep : x.stopped = true
  · rw [Cpu.enter, Cpu.enter, if_pos hasleep, if_pos (hstopped.trans hasleep)]
    exact h.wake
  · rw [henter x hasleep, henter y (hstopped ▸ hasleep), hpc]
    exact fun hfit => .inr ⟨_, _, h.resolve x.pc none hfit, rfl, rfl⟩

theorem stop (h : C.Twins P x y) (sr : UInt16) (next : UInt32) :
    C.Fitting (C.Diverts P) (x.stop sr next) (y.stop sr next) := by
  have hhalted : C.Twins P (x.halted sr next) (y.halted sr next) :=
    (h.setSr sr).change (fun c => { c with pc := next, stopped := true }) (fun _ _ _ => rfl)
      fun _ => .refl _
  rw [stop_eq, stop_eq]
  intro hfit
  rcases hhalted.wake hfit with ⟨htwins, hnone, hnone'⟩ | ⟨entry, entry', hlands, hr, hr'⟩
  · rw [hnone, hnone']
    exact ⟨P, .refl _, htwins, .inr (.inl ⟨rfl, rfl⟩)⟩
  · rw [hr, hr']
    obtain ⟨P', hadds, htwins, ⟨q, hq, rfl, rfl⟩ | ⟨e, he, rfl, rfl⟩⟩ := hlands
    · exact ⟨P', hadds, htwins, .inl ⟨q, hq, rfl, rfl⟩⟩
    · exact ⟨P', hadds, htwins, .inr (.inr ⟨e, he, rfl, rfl⟩)⟩

end Coupling.Twins

namespace Cpu

theorem callHandler_view (breakpoint : Breakpoint) (h : cpu.breakpoints[address]? = some breakpoint) :
    cpu.view.Similar (cpu.callHandler address breakpoint).2.view where
  config := rfl
  breakpoints := by
    funext key
    change (cpu.breakpoints.insert address _).contains key = cpu.breakpoints.contains key
    rw [Std.TreeMap.contains_insert, Std.compare_beq_eq_beq]
    by_cases hkey : address = key
    · subst hkey
      rw [Std.TreeMap.contains_eq_isSome_getElem?, h]
      simp
    · simp [hkey]
  memory := ⟨rfl, rfl⟩

theorem hitBreakpoint_stale {native : CodePtr} (h : cpu.breakpoints[address]? = none)
    (hlookup : cpu.store.lookup address = some native) :
    cpu.hitBreakpoint address =
      (.jump native, { cpu with store := cpu.store.restoreBoundary address native }) := by
  simp only [hitBreakpoint, h, hlookup]

theorem hitBreakpoint_missing (h : cpu.breakpoints[address]? = none)
    (hlookup : cpu.store.lookup address = none) :
    cpu.hitBreakpoint address =
      (.ofEntry (cpu.resolve address none).1, (cpu.resolve address none).2) := by
  simp only [hitBreakpoint, h, hlookup]

theorem hitBreakpoint_skipped (h : cpu.breakpoints[address]? = some breakpoint)
    (hskip : cpu.skipped = some address) :
    cpu.hitBreakpoint address = { cpu with skipped := none }.passBreakpoint address := by
  rw [hitBreakpoint, h]
  exact if_pos hskip

theorem hitBreakpoint_called (h : cpu.breakpoints[address]? = some breakpoint)
    (hskip : ¬cpu.skipped = some address) :
    cpu.hitBreakpoint address =
      match breakpoint.answers breakpoint.calls with
      | .stop => (.leave, { (cpu.callHandler address breakpoint).2 with
          pc := address
          skipped := some address })
      | .proceed => (cpu.callHandler address breakpoint).2.passBreakpoint address := by
  rw [hitBreakpoint, h]
  change (if cpu.skipped = some address then _ else _) = _
  rw [if_neg hskip, callHandler]
  cases breakpoint.answers breakpoint.calls <;> rfl

end Cpu

namespace Coupling

variable (C : Coupling) (P : Pair → Prop)

/-- Both go on behind the head of the instruction with the breakpoint. -/
def Passes (r r' : Outcome × Cpu) : Prop :=
  C.Twins P r.2 r'.2 ∧ r.1 = .resume breakpointResume ∧ r'.1 = .resume breakpointResume

variable {C P}

theorem Twins.passBreakpoint (h : C.Twins P x y) (address : UInt32)
    (hfit : C.Fit (x.passBreakpoint address).2 (y.passBreakpoint address).2) :
    C.Passes P (x.passBreakpoint address) (y.passBreakpoint address) ∨
      C.Diverts P (x.passBreakpoint address) (y.passBreakpoint address) := by
  have hdue : (y.limit ≤ y.cycle) = (x.limit ≤ x.cycle) :=
    h.reading (fun c => c.limit ≤ c.cycle) fun _ _ _ => rfl
  have hlook (cpu : Cpu) (hlimit : cpu.limit ≤ cpu.cycle) : cpu.passBreakpoint address =
      if (cpu.synchronize address).1 = .proceed then
        (.resume breakpointResume, (cpu.synchronize address).2)
      else ((cpu.synchronize address).1,
        { (cpu.synchronize address).2 with skipped := some address }) := by
    rw [Cpu.passBreakpoint, if_pos hlimit]
    obtain ⟨outcome, cpu'⟩ := cpu.synchronize address
    cases outcome <;> rfl
  by_cases hlimit : x.limit ≤ x.cycle
  · have hfits (cpu : Cpu) (hlimit : cpu.limit ≤ cpu.cycle) :
        (cpu.passBreakpoint address).2.Fits → (cpu.synchronize address).2.Fits := by
      rw [hlook cpu hlimit]
      split <;> exact id
    have hlimit' : y.limit ≤ y.cycle := hdue ▸ hlimit
    rcases h.synchronize address ⟨hfits x hlimit hfit.left, hfit.right.imp_right (hfits y hlimit')⟩
      with ⟨htwins, hr, hr'⟩ | hdiverts
    · rw [hlook x hlimit, hlook y hlimit', if_pos hr, if_pos hr']
      exact .inl ⟨htwins, rfl, rfl⟩
    · have haway : (x.synchronize address).1 ≠ .proceed ∧
          (y.synchronize address).1 ≠ .proceed := by
        obtain ⟨-, -, -, ⟨q, -, hr, hr'⟩ | ⟨hr, hr'⟩ | ⟨e, -, hr, hr'⟩⟩ := hdiverts <;>
          rw [hr, hr'] <;> exact ⟨nofun, nofun⟩
      rw [hlook x hlimit, hlook y hlimit', if_neg haway.1, if_neg haway.2]
      exact .inr (hdiverts.change (fun c => { c with skipped := some address })
        (fun _ _ _ => rfl) fun _ => .refl _)
  · rw [Cpu.passBreakpoint, Cpu.passBreakpoint, if_neg hlimit, if_neg (hdue ▸ hlimit)]
    exact .inl ⟨h, rfl, rfl⟩

theorem Twins.unbroken (h : C.Twins P x y) {p : Pair} (hp : P p)
    (hhead : x.store.code.HeadAt p.left .breakpoint address checked none)
    (hnone : x.breakpoints[address]? = none) :
    C.Fitting (C.Diverts P) (x.hitBreakpoint address) (y.hitBreakpoint address) := by
  have hnone' : y.breakpoints[address]? = none :=
    (h.reading (fun c => c.breakpoints[address]?) fun _ _ _ => rfl).trans hnone
  obtain ⟨c, s, t, rfl, rfl, hrel⟩ := id h
  have hview : c.view.hasBreakpoint address = false := by
    have hnone : c.breakpoints[address]? = none := hnone
    exact Std.TreeMap.contains_eq_isSome_getElem?.trans (by rw [hnone]; rfl)
  rcases C.stale hrel hp hhead hview with ⟨hs, ht⟩ | ⟨q, hq, hs, ht, hrel'⟩
  · have hs' : (c.twin C.left s).store.lookup address = none := hs
    have ht' : (c.twin C.right t).store.lookup address = none := ht
    rw [hitBreakpoint_missing hnone hs', hitBreakpoint_missing hnone' ht']
    exact fun hfit => (h.resolve address none hfit).diverts
  · have hs' : (c.twin C.left s).store.lookup address = some q.left.toUInt32 := hs
    have ht' : (c.twin C.right t).store.lookup address = some q.right.toUInt32 := ht
    rw [hitBreakpoint_stale hnone hs', hitBreakpoint_stale hnone' ht']
    exact fun _ => ⟨P, .refl _, ⟨c, _, _, rfl, rfl, hrel'⟩, .inl ⟨q, hq, rfl, rfl⟩⟩

theorem Twins.hitBreakpoint (h : C.Twins P x y) {p : Pair} (hp : P p)
    (hhead : x.store.code.HeadAt p.left .breakpoint address checked none)
    (hfit : C.Fit (x.hitBreakpoint address).2 (y.hitBreakpoint address).2) :
    C.Passes P (x.hitBreakpoint address) (y.hitBreakpoint address) ∨
      C.Diverts P (x.hitBreakpoint address) (y.hitBreakpoint address) := by
  cases hfound : x.breakpoints[address]? with
  | none => exact .inr (h.unbroken hp hhead hfound hfit)
  | some breakpoint =>
    have hfound' : y.breakpoints[address]? = some breakpoint :=
      (h.reading (fun c => c.breakpoints[address]?) fun _ _ _ => rfl).trans hfound
    have hskipped : y.skipped = x.skipped := h.reading skipped fun _ _ _ => rfl
    by_cases hskip : x.skipped = some address
    · rw [hitBreakpoint_skipped hfound hskip,
        hitBreakpoint_skipped hfound' (hskipped.trans hskip)] at hfit ⊢
      have hcleared := h.change (fun c => { c with skipped := none }) (fun _ _ _ => rfl)
        fun _ => .refl _
      exact hcleared.passBreakpoint address hfit
    · have hcalled : C.Twins P (x.callHandler address breakpoint).2
          (y.callHandler address breakpoint).2 := by
        obtain ⟨c, s, t, rfl, rfl, hrel⟩ := h
        exact ⟨(c.callHandler address breakpoint).2, s, t, rfl, rfl,
          C.similar hrel (callHandler_view breakpoint hfound)⟩
      rw [hitBreakpoint_called hfound hskip,
        hitBreakpoint_called hfound' (hskipped.symm ▸ hskip)] at hfit ⊢
      generalize breakpoint.answers breakpoint.calls = answer at hfit ⊢
      cases answer with
      | stop =>
        exact .inr ⟨P, .refl _, hcalled.change
          (fun c => { c with pc := address, skipped := some address }) (fun _ _ _ => rfl)
          fun _ => .refl _, .inr (.inl ⟨rfl, rfl⟩)⟩
      | proceed => exact hcalled.passBreakpoint address hfit

end Coupling

namespace Host.Service

/-- Accesses to guest memory. -/
def isAccess : Service → Bool
  | .read8 => true
  | .read16 => true
  | .read32 => true
  | .write8 => true
  | .write16 => true
  | .write32 => true
  | .write32LowFirst => true
  | _ => false

/-- Services that give back to the code that asks for them, unless they fail. -/
abbrev GivesBack (service : Service) : Prop :=
  service.isAccess = true ∨ service.comesBack = true

end Host.Service

/-- Hosts that give a service the same arguments. -/
structure SameArguments (service : Service) (x y : Cpu) (m n : Host.State) : Prop where
  first : service.takesFirst = true → n.reg scratch1 = m.reg scratch1
  second : n.reg scratch2 = m.reg scratch2
  third : n.reg scratch3 = m.reg scratch3
  caller : y.caller? n = x.caller? m

theorem Outcome.ofEntry_ne_proceed (entry : Except CpuError CodePtr) : ofEntry entry ≠ .proceed := by
  cases entry <;> exact Outcome.noConfusion

theorem Outcome.ofEntry_ne_leave (entry : Except CpuError CodePtr) : ofEntry entry ≠ .leave := by
  cases entry <;> exact Outcome.noConfusion

namespace Coupling

variable (C : Coupling) (P : Pair → Prop)

/-- Both go on with the next operation and the same result, or neither goes on where it was. -/
def Serves (r r' : Served) : Prop :=
  (C.Twins P r.cpu r'.cpu ∧ r.outcome = .proceed ∧ r'.outcome = .proceed ∧ r'.result = r.result) ∨
    C.Diverts P (r.outcome, r.cpu) (r'.outcome, r'.cpu)

/-- As `Serves` says, where the compiled code has room if it does not go on. -/
def Serving (r r' : Served) : Prop :=
  (r.outcome ≠ .proceed → C.Fit r.cpu r'.cpu) → C.Serves P r r'

/-- Both go on with the next operation and with the place of the same unit, or fail alike. -/
def Finds (r r' : Served) : Prop :=
  ∃ P' : Pair → Prop, C.Adds P P' r.cpu ∧ C.Twins P' r.cpu r'.cpu ∧
    ((∃ q, P' q ∧ r.outcome = .proceed ∧ r'.outcome = .proceed ∧
        r.result = some q.left.toUInt32 ∧ r'.result = some q.right.toUInt32) ∨
      ∃ e : CpuError, e.isGuest = true ∧ r.outcome = .fail e ∧ r'.outcome = .fail e)

variable {C P}

namespace Twins

theorem answered (h : C.Twins P x y) {f : Cpu → UInt32 × Cpu} (hf : Plain f) :
    C.Serving P (.value (f x).2 (f x).1) (.value (f y).2 (f y).1) := by
  obtain ⟨hsame, htwins⟩ := h.plain hf
  exact fun _ => .inl ⟨htwins, rfl, rfl, congrArg some hsame.symm⟩

theorem done (h : C.Twins P x y) : C.Serving P (.done x) (.done y) :=
  fun _ => .inl ⟨h, rfl, rfl, rfl⟩

theorem spendBus (h : C.Twins P x y) (accesses : UInt32) :
    C.Twins P (x.spendBus accesses) (y.spendBus accesses) :=
  h.change (·.spendBus accesses) (fun _ _ _ => rfl) fun _ => .refl _

variable {m n : Host.State}

variable (h : C.Twins P x y) (signed : Bool) {service : Service}
include h

theorem oddAccess (hcaller : y.caller? n = x.caller? m) (address : UInt32) (kind : FaultKind) :
    C.Serving P (x.oddAccess m address kind) (y.oddAccess n address kind) := by
  unfold Cpu.oddAccess
  rw [hcaller]
  exact fun hfit => .inr (h.takeAddressError _ (hfit (Outcome.ofEntry_ne_proceed _))).diverts

theorem serveRead (hcaller : y.caller? n = x.caller? m) (size : Size) (address : UInt32) :
    C.Serving P (x.serveRead m size address) (y.serveRead n size address) := by
  unfold Cpu.serveRead
  by_cases hodd : size ≠ .byte ∧ address &&& 1 ≠ 0
  · rw [if_pos hodd, if_pos hodd]
    exact h.oddAccess hcaller address .read
  · rw [if_neg hodd, if_neg hodd]
    cases size with
    | byte =>
      refine (h.spendBus 1).answered (f := fun cpu => ((cpu.memory.read8 address).1.toUInt32,
        { cpu with memory := (cpu.memory.read8 address).2 })) ⟨fun _ _ _ => rfl,
        fun _ _ _ => rfl, fun cpu => ⟨rfl, rfl, cpu.memory.sameCode_read8 address⟩⟩
    | word =>
      have hread := plain_read16 address
      exact (h.spendBus 1).answered (f := fun cpu => ((cpu.read16 address).1.toUInt32,
        (cpu.read16 address).2)) ⟨fun cpu a s => congrArg UInt16.toUInt32 (hread.result cpu a s),
        hread.twin, hread.view⟩
    | long => exact (h.spendBus 2).answered (plain_read32 address)

theorem serveWrite (hcaller : y.caller? n = x.caller? m) (size : Size) (lowFirst : Bool)
    (address value : UInt32) :
    C.Serving P (x.serveWrite m size lowFirst address value)
      (y.serveWrite n size lowFirst address value) := by
  unfold Cpu.serveWrite
  by_cases hodd : size ≠ .byte ∧ address &&& 1 ≠ 0
  · rw [if_pos hodd, if_pos hodd]
    exact h.oddAccess hcaller address .write
  · rw [if_neg hodd, if_neg hodd]
    cases size with
    | byte => exact ((h.spendBus 1).write address (.byte _)).done
    | word => exact ((h.spendBus 1).write address (.word _)).done
    | long =>
      cases lowFirst with
      | false => exact ((h.spendBus 2).write address (.long value)).done
      | true => exact ((h.spendBus 2).write address (.longLowFirst value)).done

theorem setFlag (flag : Flag) (value : Bool) :
    C.Twins P (x.setFlag flag value) (y.setFlag flag value) :=
  h.change (·.setFlag flag value) (fun _ _ _ => rfl) fun _ => .refl _

theorem spend (clocks : Nat) : C.Twins P (x.spend clocks) (y.spend clocks) :=
  h.change (·.spend clocks) (fun _ _ _ => rfl) fun _ => .refl _

theorem serveMultiply (source destination : UInt16) :
    C.Serving P (x.serveMultiply signed source destination)
      (y.serveMultiply signed source destination) :=
  fun _ =>
    .inl ⟨((((h.spend _).setFlag .n _).setFlag .z _).setFlag .v _).setFlag .c _, rfl, rfl, rfl⟩

theorem quotientFlags (quotient : Arithmetic.Quotient) :
    C.Twins P (x.quotientFlags quotient) (y.quotientFlags quotient) := by
  cases quotient with
  | value value => exact (((h.setFlag .n _).setFlag .z _).setFlag .v _).setFlag .c _
  | overflow => exact (((h.setFlag .n _).setFlag .z _).setFlag .v _).setFlag .c _

theorem serveDivide (divisor : UInt16) (dividend next : UInt32) :
    C.Serving P (x.serveDivide signed divisor dividend next)
      (y.serveDivide signed divisor dividend next) := by
  unfold Cpu.serveDivide
  by_cases hzero : divisor = 0
  · rw [if_pos hzero, if_pos hzero]
    exact fun hfit => .inr ((h.setFlag .c false).takeException _ next
      (hfit (Outcome.ofEntry_ne_proceed _))).diverts
  · rw [if_neg hzero, if_neg hzero]
    dsimp only
    generalize (if signed = true then Arithmetic.divSigned dividend.toInt32 divisor.toInt16
      else Arithmetic.divUnsigned dividend divisor) = quotient
    generalize (if signed = true then Arithmetic.divSignedClocks dividend.toInt32 divisor.toInt16
      else Arithmetic.divUnsignedClocks dividend divisor) = clocks
    have htwins := (h.spend clocks).quotientFlags quotient
    cases quotient <;> exact fun _ => .inl ⟨htwins, rfl, rfl, rfl⟩

theorem decimalFlags (result : Arithmetic.DecimalResult) :
    C.Twins P (x.decimalFlags result) (y.decimalFlags result) := by
  unfold Cpu.decimalFlags
  have hcarry := (h.setFlag .x result.carry).setFlag .c result.carry
  by_cases hzero : result.value = 0
  · simp only [hzero, if_true]
    exact (hcarry.setFlag .n _).setFlag .v _
  · simp only [hzero, if_false]
    exact ((hcarry.setFlag .z false).setFlag .n _).setFlag .v _

theorem serveDecimal (subtract : Bool) (source destination : UInt8) :
    C.Serving P (x.serveDecimal subtract source destination)
      (y.serveDecimal subtract source destination) := by
  unfold Cpu.serveDecimal
  rw [h.registers]
  exact fun _ => .inl ⟨h.decimalFlags _, rfl, rfl, rfl⟩

theorem serve_back (hservice : service.GivesBack)
    (hsame : SameArguments service x y m n) :
    C.Serving P (x.serve m service) (y.serve n service) := by
  obtain ⟨hfirst, hsecond, hthird, hcaller⟩ := hsame
  cases service <;>
    first
      | exact absurd hservice (by decide)
      | skip
  all_goals
    simp only [serve, hsecond, hthird]
  all_goals
    first
      | rw [hfirst rfl]
      | skip
  case read8 => exact h.serveRead hcaller _ _
  case read16 => exact h.serveRead hcaller _ _
  case read32 => exact h.serveRead hcaller _ _
  case write8 => exact h.serveWrite hcaller _ _ _ _
  case write16 => exact h.serveWrite hcaller _ _ _ _
  case write32 => exact h.serveWrite hcaller _ _ _ _
  case write32LowFirst => exact h.serveWrite hcaller _ _ _ _
  case setSr => exact (h.setSr _).done
  case reset =>
      have hlogs : y.logsReset = x.logsReset := h.reading logsReset fun _ _ _ => rfl
      rw [hlogs]
      cases x.logsReset with
      | true =>
        exact (h.change (·.log .reset) (fun _ _ _ => rfl) fun _ => ⟨rfl, rfl, rfl, rfl⟩).done
      | false => exact h.done
  case mulu => exact h.serveMultiply _ _ _
  case muls => exact h.serveMultiply _ _ _
  case divu => exact h.serveDivide _ _ _ _
  case divs => exact h.serveDivide _ _ _ _
  case abcd => exact h.serveDecimal _ _ _
  case sbcd => exact h.serveDecimal _ _ _

theorem serve_away (hservice : service.goesAway = true) (hsame : SameArguments service x y m n) :
    C.Fitting (C.Diverts P) ((x.serve m service).outcome, (x.serve m service).cpu)
      ((y.serve n service).outcome, (y.serve n service).cpu) := by
  obtain ⟨hfirst, hsecond, -, hcaller⟩ := hsame
  cases service <;>
    first
      | exact absurd hservice (by decide)
      | skip
  all_goals
    simp only [serve, hsecond, hcaller]
  all_goals
    first
      | rw [hfirst rfl]
      | skip
  case outOfBounds =>
      exact fun _ => ⟨P, .refl _, h.change (fun c => { c with pc := m.reg scratch1 })
        (fun _ _ _ => rfl) fun _ => .refl _, .inr (.inr ⟨_, rfl, rfl, rfl⟩)⟩
  case exception => exact fun hfit => (h.takeException _ _ hfit).diverts
  case fetchError => exact fun hfit => (h.takeAddressError _ hfit).diverts
  case returnFromException => exact fun hfit => (h.returnFromException _ hfit).diverts
  case stop => exact h.stop _ _

theorem serve_synchronize (hfirst : n.reg scratch1 = m.reg scratch1)
    (hfit : C.Fit (x.serve m .synchronize).cpu (y.serve n .synchronize).cpu) :
    C.Serves P (x.serve m .synchronize) (y.serve n .synchronize) := by
  simp only [serve, hfirst] at hfit ⊢
  rcases h.synchronize (m.reg scratch1) hfit with ⟨htwins, ho, ho'⟩ | hdiverts
  · exact .inl ⟨htwins, ho, ho', rfl⟩
  · exact .inr hdiverts

theorem serve_locate (hsame : SameArguments .locate x y m n)
    (hfit : C.Fit (x.serve m .locate).cpu (y.serve n .locate).cpu) :
    C.Finds P (x.serve m .locate) (y.serve n .locate) := by
  have hok {cpu found : Cpu} {host : Host.State} {native : CodePtr}
      (h : cpu.resolve (host.reg scratch1) (cpu.caller? host) = (.ok native, found)) :
      cpu.serve host .locate = .value found native := by
    simp only [serve, h]
  have herror {cpu found : Cpu} {host : Host.State} {e : CpuError}
      (h : cpu.resolve (host.reg scratch1) (cpu.caller? host) = (.error e, found)) :
      cpu.serve host .locate = ⟨.fail e, found, none⟩ := by
    simp only [serve, h]
  have hresolve (cpu : Cpu) (host : Host.State) : (cpu.serve host .locate).cpu =
      (cpu.resolve (host.reg scratch1) (cpu.caller? host)).2 := by
    cases hentry : cpu.resolve (host.reg scratch1) (cpu.caller? host) with
    | mk entry found =>
      cases entry with
      | ok native => rw [hok hentry, Served.value]
      | error e => rw [herror hentry]
  rw [hresolve, hresolve, hsame.first rfl, hsame.caller] at hfit
  have hlands := h.resolve (m.reg scratch1) (x.caller? m) hfit
  cases hentry : x.resolve (m.reg scratch1) (x.caller? m) with
  | mk entry x' =>
    cases hentry' : y.resolve (m.reg scratch1) (x.caller? m) with
    | mk entry' y' =>
      rw [hentry, hentry'] at hlands
      rw [← hsame.first rfl, ← hsame.caller] at hentry'
      obtain ⟨P', hadds, htwins, ⟨q, hq, rfl, rfl⟩ | ⟨e, he, rfl, rfl⟩⟩ := hlands
      · rw [hok hentry, hok hentry']
        exact ⟨P', hadds, htwins, .inl ⟨q, hq, rfl, rfl, rfl, rfl⟩⟩
      · rw [herror hentry, herror hentry']
        exact ⟨P', hadds, htwins, .inr ⟨e, he, rfl, rfl⟩⟩

theorem serve_refresh {p : Pair} (hp : P p)
    (hhead : x.store.code.HeadAt p.left .redirected address checked none)
    (hm : m.reg scratch1 = address) (hn : n.reg scratch1 = address) :
    C.Fitting (C.Diverts P) ((x.serve m .refresh).outcome, (x.serve m .refresh).cpu)
      ((y.serve n .refresh).outcome, (y.serve n .refresh).cpu) := by
  simp only [serve, hm, hn]
  rintro ⟨hx, hy⟩
  obtain ⟨c, s, t, rfl, rfl, hrel⟩ := h
  have hfits : (t.refresh (c.view.assign C.right) address).2.Fits := by
    rcases hy with hside | hy
    · exact (hside _ _ _ _ hrel address).2 hx
    · exact hy
  obtain ⟨P', q, hkeeps, hadded, hq, hs, ht, hrel'⟩ := C.refresh hrel hp hhead hx hfits
  exact ⟨P', ⟨hkeeps, hadded⟩, ⟨c, _, _, rfl, rfl, hrel'⟩,
    .inl ⟨q, hq, congrArg Outcome.jump hs, congrArg Outcome.jump ht⟩⟩

end Twins

end Coupling

end Dynarec68k
