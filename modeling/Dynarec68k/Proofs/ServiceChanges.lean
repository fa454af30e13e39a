import Dynarec68k.Proofs.CoupledServices

namespace Dynarec68k.Cpu

open Host

/-- Kept by what happens in the middle of an instruction. -/
structure Quiet (R : Cpu → Cpu → Prop) : Prop where
  trans {x y z : Cpu} : R x y → R y z → R x z
  pass (x : Cpu) (memory : MemoryMap) (cycle : UInt32) :
    R x { x with memory := memory, cycle := cycle }
  setFlag (x : Cpu) (flag : Flag) (value : Bool) : R x (x.setFlag flag value)
  afterWrite (x : Cpu) (address : UInt32) (bytes : Nat) (action : DeviceAction) :
    R x (x.afterWrite address bytes action)

variable {R : Cpu → Cpu → Prop} {cpu : Cpu}

namespace Quiet

variable (h : Quiet R) (host : State) (size : Size)
include h

theorem written (memory : MemoryMap) (address : UInt32) (bytes : Nat) (action : DeviceAction) :
    R cpu (Cpu.afterWrite { cpu with memory := memory } address bytes action) :=
  h.trans (h.pass cpu _ _) (h.afterWrite _ _ _ _)

theorem setFlags (clocks : Nat) (n z v c : Bool) :
    R cpu (((((cpu.spend clocks).setFlag .n n).setFlag .z z).setFlag .v v).setFlag .c c) := by
  refine h.trans ?_ (h.setFlag _ _ _)
  refine h.trans ?_ (h.setFlag _ _ _)
  refine h.trans ?_ (h.setFlag _ _ _)
  exact h.trans (h.pass cpu _ _) (h.setFlag _ _ _)

theorem serveRead (address : UInt32)
    (hfault : (cpu.serveRead host size address).outcome = .proceed ∨
      ∀ fault, R cpu (cpu.takeAddressError fault).2) :
    R cpu (cpu.serveRead host size address).cpu := by
  unfold Cpu.serveRead at hfault ⊢
  split at hfault
  · rw [if_pos ‹_›]
    exact hfault.resolve_left (Outcome.ofEntry_ne_proceed _) _
  · rw [if_neg ‹_›]
    cases size <;> exact h.pass cpu _ _

theorem serveWrite (lowFirst : Bool) (address value : UInt32)
    (hfault : (cpu.serveWrite host size lowFirst address value).outcome = .proceed ∨
      ∀ fault, R cpu (cpu.takeAddressError fault).2) :
    R cpu (cpu.serveWrite host size lowFirst address value).cpu := by
  have hspent (accesses : UInt32) : R cpu (cpu.spendBus accesses) := h.pass cpu _ _
  unfold Cpu.serveWrite at hfault ⊢
  split at hfault
  · rw [if_pos ‹_›]
    exact hfault.resolve_left (Outcome.ofEntry_ne_proceed _) _
  · rw [if_neg ‹_›]
    cases size with
    | byte | word => exact h.trans (hspent 1) (h.written _ _ _ _)
    | long => cases lowFirst <;> exact h.trans (hspent 2) (h.written _ _ _ _)

theorem serveDivide (signed : Bool) (divisor : UInt16) (dividend next : UInt32)
    (hfault : (cpu.serveDivide signed divisor dividend next).outcome = .proceed ∨
      ∀ (x : Cpu) vector pc, R x (x.takeException vector pc).2) :
    R cpu (cpu.serveDivide signed divisor dividend next).cpu := by
  unfold Cpu.serveDivide at hfault ⊢
  split at hfault
  · rw [if_pos ‹_›]
    exact h.trans (h.setFlag cpu _ _) (hfault.resolve_left (Outcome.ofEntry_ne_proceed _) _ _ _)
  · rw [if_neg ‹_›]
    dsimp only
    generalize (if signed = true then Arithmetic.divSigned dividend.toInt32 divisor.toInt16
      else Arithmetic.divUnsigned dividend divisor) = quotient
    cases quotient <;> exact h.setFlags _ _ _ _ _

theorem serveDecimal (subtract : Bool) (source destination : UInt8) :
    R cpu (cpu.serveDecimal subtract source destination).cpu := by
  unfold Cpu.serveDecimal
  dsimp only [Served.value]
  generalize (if subtract = true then _ else _ : Arithmetic.DecimalResult) = result
  have hcarry : R cpu ((cpu.setFlag .x result.carry).setFlag .c result.carry) :=
    h.trans (h.setFlag _ _ _) (h.setFlag _ _ _)
  unfold decimalFlags
  dsimp only
  refine h.trans (h.trans ?_ (h.setFlag _ .n _)) (h.setFlag _ .v _)
  split
  · exact hcarry
  · exact h.trans hcarry (h.setFlag _ _ _)

theorem serve {service : Service} (hservice : service.GivesBack)
    (hstatus : service = .setSr → ∀ sr, R cpu (cpu.setSr sr))
    (hfault : (cpu.serve host service).outcome = .proceed ∨
      (∀ fault, R cpu (cpu.takeAddressError fault).2) ∧
        ∀ (x : Cpu) vector pc, R x (x.takeException vector pc).2) :
    R cpu (cpu.serve host service).cpu := by
  cases service with
  | read8 | read16 | read32 => exact h.serveRead host _ _ (hfault.imp id And.left)
  | write8 | write16 | write32 => exact h.serveWrite host _ false _ _ (hfault.imp id And.left)
  | write32LowFirst => exact h.serveWrite host _ true _ _ (hfault.imp id And.left)
  | setSr => exact hstatus rfl _
  | reset =>
    simp only [Cpu.serve, Served.done]
    split
    · exact h.pass cpu _ _
    · exact h.pass cpu cpu.memory cpu.cycle
  | mulu | muls => exact h.setFlags _ _ _ _ _
  | divu | divs => exact h.serveDivide _ _ _ _ (hfault.imp id And.right)
  | abcd | sbcd => exact h.serveDecimal _ _ _
  | _ => rcases hservice with hservice | hservice <;> cases hservice

end Quiet

/-- Kept by exceptions too, and by what a processor notes between two instructions. -/
structure Lasting (R : Cpu → Cpu → Prop) : Prop extends Quiet R where
  note (x : Cpu) (pc : UInt32) (stopped : Bool) (skipped : Option UInt32)
      (breakpoints : Std.TreeMap UInt32 Breakpoint) (hits : Nat) :
    R x { x with
      pc := pc
      stopped := stopped
      skipped := skipped
      breakpoints := breakpoints
      counters := { x.counters with breakpointHits := hits } }
  locate (x : Cpu) (address : UInt32) : R x (x.locate address).2
  addressError (x : Cpu) (fault : AddressFault) : R x (x.takeAddressError fault).2
  exception (x : Cpu) (vector : Nat) (pc : UInt32) : R x (x.takeException vector pc).2

namespace Lasting

theorem refl (h : Lasting R) : R cpu cpu :=
  h.pass cpu cpu.memory cpu.cycle

theorem resolve (h : Lasting R) (cpu : Cpu) (address : UInt32) (origin : Option UInt32) :
    R cpu (cpu.resolve address origin).2 := by
  unfold Cpu.resolve
  split
  · exact h.locate cpu address
  · exact h.addressError cpu _

theorem serve_back (h : Lasting R) (host : State) {service : Service} (hservice : service.GivesBack)
    (hstatus : service = .setSr → ∀ sr, R cpu (cpu.setSr sr)) :
    R cpu (cpu.serve host service).cpu :=
  h.serve host hservice hstatus (.inr ⟨h.addressError cpu, h.exception⟩)

theorem serve_locate (h : Lasting R) (host : State) : R cpu (cpu.serve host .locate).cpu := by
  have hresolve := h.resolve cpu (host.reg Role.scratch1) (cpu.caller? host)
  simp only [Cpu.serve]
  generalize cpu.resolve (host.reg Role.scratch1) (cpu.caller? host) = r at hresolve ⊢
  obtain ⟨entry, found⟩ := r
  cases entry <;> exact hresolve

theorem returnFromException (h : Lasting R) (hstatus : ∀ (x : Cpu) sr, R x (x.setSr sr))
    (hset : ∀ (x : Cpu) n value, R x (x.setA n value)) (cpu : Cpu) (origin : Option UInt32) :
    R cpu (cpu.returnFromException origin).2 := by
  have hread (memory : MemoryMap) : R cpu { cpu with memory := memory } := h.pass cpu memory _
  have hpopped (sp : UInt32) (sr : UInt16) (pc : UInt32) (memory : MemoryMap) :
      R cpu { ({ cpu with memory := memory }.setA 7 sp).setSr sr with pc := pc } :=
    h.trans (h.trans (h.trans (hread memory) (hset _ 7 sp)) (hstatus _ sr))
      (h.note _ pc _ _ _ _)
  exact h.trans (hpopped _ _ _ _) (h.resolve _ _ _)

end Lasting

/-- Kept by each thing that an exception does. -/
structure Entered (R : Cpu → Cpu → Prop) : Prop where
  setSr (x : Cpu) (sr : UInt16) : R x (x.setSr sr)
  setA (x : Cpu) (n : Nat) (value : UInt32) : R x (x.setA n value)
  vectorTo (x : Cpu) (vector : Nat) : R x (x.vectorTo vector).2

namespace Entered

variable (h : Entered R)
include h

theorem push16 (hquiet : Quiet R) (value : UInt16) : R cpu (cpu.push16 value) :=
  hquiet.trans (hquiet.written _ _ _ _) (h.setA _ _ _)

theorem push32 (hquiet : Quiet R) (value : UInt32) : R cpu (cpu.push32 value) :=
  hquiet.trans (hquiet.written _ _ _ _) (h.setA _ _ _)

theorem enterException (hquiet : Quiet R) (cpu : Cpu) (vector : Nat) (pc : UInt32) :
    R cpu (cpu.enterException vector pc).2 := by
  refine hquiet.trans ?_ (h.vectorTo _ vector)
  refine hquiet.trans ?_ (h.push16 hquiet _)
  exact hquiet.trans (h.setSr _ _) (h.push32 hquiet _)

theorem addressError (hquiet : Quiet R) (hlocate : ∀ (x : Cpu) address, R x (x.locate address).2)
    (fault : AddressFault) : R cpu (cpu.takeAddressError fault).2 := by
  have hopcode : R cpu (cpu.faultOpcode fault).2 := by
    unfold faultOpcode
    split
    · exact hquiet.pass cpu _ _
    · exact hquiet.pass cpu cpu.memory cpu.cycle
  have hframed : R cpu (cpu.framed fault) := by
    refine hquiet.trans ?_ (h.push16 hquiet _)
    refine hquiet.trans ?_ (h.push32 hquiet _)
    refine hquiet.trans ?_ (h.push16 hquiet _)
    refine hquiet.trans ?_ (h.push16 hquiet _)
    refine hquiet.trans ?_ (h.push32 hquiet _)
    exact hquiet.trans hopcode (h.setSr _ _)
  have hvector := hquiet.trans hframed (h.vectorTo _ ExceptionVector.addressError)
  rw [takeAddressError_eq]
  rcases (cpu.framed fault).vectorTo_cases ExceptionVector.addressError with
    ⟨target, -, hok⟩ | ⟨e, -, herror⟩
  · rw [handle_ok hok]
    exact hquiet.trans hvector (hlocate _ target)
  · rw [handle_error herror]
    exact hvector

theorem exception (hquiet : Quiet R) (hlocate : ∀ (x : Cpu) address, R x (x.locate address).2)
    (vector : Nat) (pc : UInt32) : R cpu (cpu.takeException vector pc).2 := by
  have henter := h.enterException hquiet cpu vector pc
  unfold takeException
  generalize cpu.enterException vector pc = r at henter ⊢
  obtain ⟨_ | handler, taken⟩ := r
  · exact henter
  · refine hquiet.trans henter ?_
    unfold Cpu.resolve
    dsimp only
    split
    · exact hlocate taken handler
    · exact h.addressError hquiet hlocate _

theorem interrupt (hlasting : Lasting R) {level : UInt8} (hnoted : R cpu (cpu.acknowledge level))
    (pc : UInt32) : R cpu (cpu.takeInterrupt level pc).2 := by
  have henter := hlasting.trans hnoted (h.enterException hlasting.toQuiet _
    (ExceptionVector.autovector + level.toNat) pc)
  unfold takeInterrupt
  generalize (cpu.acknowledge level).enterException (ExceptionVector.autovector + level.toNat) pc =
    r at henter ⊢
  obtain ⟨_ | handler, taken⟩ := r
  · exact henter
  · exact hlasting.trans (hlasting.trans henter (h.setSr taken _)) (hlasting.resolve _ handler none)

end Entered

/-- Kept by all that a processor does between two instructions. -/
structure Attentive (R : Cpu → Cpu → Prop) : Prop extends Lasting R where
  refresh (x : Cpu) (address : UInt32) : R x (x.refresh address).2
  restoreBoundary (x : Cpu) (address : UInt32) (native : CodePtr) :
    R x { x with store := x.store.restoreBoundary address native }
  latch (x : Cpu) : R x x.latch
  forget (x : Cpu) (latched : Option UInt8) (pending : Bool)
      (hlatched : latched = none ∨ latched = x.latched)
      (hpending : pending = false ∨ pending = x.tracePending) :
    R x { x with latched := latched, tracePending := pending }
  interrupt (x : Cpu) (level : UInt8) (pc : UInt32) : R x (x.takeInterrupt level pc).2

namespace Attentive

variable (h : Attentive R) (address : UInt32)
include h

theorem synchronize (cpu : Cpu) (address : UInt32) : R cpu (cpu.synchronize address).2 := by
  unfold Cpu.synchronize
  split
  · exact h.note cpu _ _ _ _ _
  · split
    · exact h.trans (h.forget cpu _ _ (.inr rfl) (.inl rfl)) (h.exception _ _ _)
    · split
      · exact h.trans (h.forget cpu _ _ (.inl rfl) (.inr rfl)) (h.interrupt _ _ _)
      · exact h.latch cpu

theorem wake : R cpu cpu.wake.2 := by
  have hforgot : R cpu { cpu with latched := none } :=
    h.forget cpu none _ (.inl rfl) (.inr rfl)
  cases hlevel : cpu.wakeLevel? with
  | none =>
    rw [Cpu.wake, hlevel]
    exact h.trans hforgot (h.pass _ _ _)
  | some level =>
    have hroused : R cpu cpu.roused :=
      h.trans (h.trans hforgot (h.pass _ _ _)) (h.note _ _ false _ _ _)
    rw [wake_some hlevel]
    exact h.trans hroused (h.interrupt _ _ _)

theorem passBreakpoint : R cpu (cpu.passBreakpoint address).2 := by
  have hlook := h.synchronize cpu address
  have hskipped (x : Cpu) : R x { x with skipped := some address } := h.note x _ _ _ _ _
  unfold Cpu.passBreakpoint
  split
  · generalize cpu.synchronize address = r at hlook ⊢
    obtain ⟨outcome, looked⟩ := r
    cases outcome with
    | proceed => exact hlook
    | _ => exact h.trans hlook (hskipped _)
  · exact h.refl

theorem hitBreakpoint : R cpu (cpu.hitBreakpoint address).2 := by
  cases hfound : cpu.breakpoints[address]? with
  | none =>
    rw [Cpu.hitBreakpoint, hfound]
    cases cpu.store.lookup address with
    | some native => exact h.restoreBoundary cpu address native
    | none => exact h.resolve cpu address none
  | some breakpoint =>
    by_cases hskip : cpu.skipped = some address
    · rw [hitBreakpoint_skipped hfound hskip]
      exact h.trans (h.note cpu _ _ none _ _) (h.passBreakpoint address)
    · rw [hitBreakpoint_called hfound hskip]
      have hcalled : R cpu (cpu.callHandler address breakpoint).2 :=
        h.trans (h.note cpu _ _ _ _ _) (h.pass _ _ _)
      generalize (cpu.callHandler address breakpoint).2 = called at hcalled ⊢
      cases breakpoint.answers breakpoint.calls with
      | stop => exact h.trans hcalled (h.note called _ _ _ _ _)
      | proceed => exact h.trans hcalled (h.passBreakpoint address)

theorem serve (host : State) {service : Service}
    (hstatus : service.privileged = true →
      (∀ (x : Cpu) sr, R x (x.setSr sr)) ∧ ∀ (x : Cpu) n value, R x (x.setA n value)) :
    R cpu (cpu.serve host service).cpu := by
  by_cases hback : service.GivesBack
  · refine h.serve_back host hback fun heq => ?_
    subst heq
    exact (hstatus rfl).1 cpu
  cases service with
  | synchronize => exact h.synchronize cpu _
  | locate => exact h.serve_locate host
  | refresh => exact h.refresh cpu _
  | breakpoint => exact h.hitBreakpoint _
  | outOfBounds => exact h.note cpu _ _ _ _ _
  | exception => exact h.exception cpu _ _
  | fetchError => exact h.addressError cpu _
  | returnFromException => exact h.returnFromException (hstatus rfl).1 (hstatus rfl).2 cpu _
  | stop =>
    change R cpu (cpu.stop _ _).2
    rw [stop_eq]
    exact h.trans (h.trans ((hstatus rfl).1 cpu _) (h.note _ _ true _ _ _)) h.wake
  | _ => exact absurd (by decide) hback

theorem enter (cpu : Cpu) : R cpu cpu.enter.2 := by
  unfold Cpu.enter
  split
  · exact h.wake
  · have hresolve := h.resolve cpu cpu.pc none
    generalize cpu.resolve cpu.pc none = r at hresolve ⊢
    obtain ⟨entry, found⟩ := r
    cases entry <;> exact hresolve

end Attentive

end Dynarec68k.Cpu
