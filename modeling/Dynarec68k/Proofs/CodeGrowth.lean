import Dynarec68k.Proofs.ServiceChanges
import Dynarec68k.Proofs.SessionSteps

namespace Dynarec68k

open Host Relation Cpu

namespace CodeStore

/-- Put a breakpoint on the code of an address, if it has code. -/
def placeBreakpoint (s : CodeStore) (address : UInt32) : CodeStore :=
  match s.lookup address with
  | some native => s.setBreakpoint address native
  | none => s

/-- Take the breakpoint off the code of an address, if it has one. -/
def liftBreakpoint (s : CodeStore) (address : UInt32) : CodeStore :=
  match s.lookup address with
  | some native =>
    if s.entryKind native = .breakpoint then s.restoreBoundary address native else s
  | none => s

/-- What patching heads keeps to. -/
structure Patching (R : CodeStore → CodeStore → Prop) : Prop where
  refl : ∀ s, R s s
  trans : ∀ {s s' s''}, R s s' → R s' s'' → R s s''
  redirect : ∀ s address native, R s (s.redirect address native)
  overwriteWith : ∀ s site fragment, R s (s.overwriteWith site fragment)
  goOn : ∀ s : CodeStore, R s { s with endless := true }

variable (s : CodeStore) (view : GuestView)

namespace Patching

variable {R : CodeStore → CodeStore → Prop} (h : Patching R) (config : Config) (address : UInt32)
include h

theorem redirectAt : R s (s.redirectAt address) := by
  unfold CodeStore.redirectAt
  split
  · exact h.redirect s _ _
  · exact h.refl s

theorem redirectEntries (stop : UInt32) : R s (s.redirectEntries address stop) := by
  fun_induction CodeStore.redirectEntries s address stop with
  | case1 s address hstop rest hnext ih => exact h.trans (h.redirectAt s address) ih
  | case2 s address hstop rest hlast => exact h.trans (h.redirectAt s address) (h.goOn _)
  | case3 s address hstop => exact h.refl s

theorem noteWrite (bytes : Nat) : R s (s.noteWrite config address bytes) := by
  unfold CodeStore.noteWrite
  split
  · exact h.redirectEntries s _ _
  · exact h.refl s

theorem redirectWords (canonical : UInt32 → UInt32) (address : UInt32) (count : Nat) :
    R s (s.redirectWords config canonical address count) := by
  induction count generalizing s address with
  | zero => exact h.refl s
  | succ count ih =>
    refine h.trans ?_ (ih _ (address + 2))
    split
    · exact h.redirectEntries s _ _
    · exact h.refl s

theorem redirectRange (canonical : UInt32 → UInt32) (start stop : UInt32) :
    R s (s.redirectRange config canonical start stop) := by
  unfold CodeStore.redirectRange
  split
  · exact h.refl s
  · exact h.redirectWords s _ _ _ _

theorem placeBreakpoint : R s (s.placeBreakpoint address) := by
  unfold CodeStore.placeBreakpoint
  split
  · unfold setBreakpoint
    split
    · exact h.overwriteWith s _ _
    · exact h.refl s
  · exact h.refl s

theorem liftBreakpoint : R s (s.liftBreakpoint address) := by
  unfold CodeStore.liftBreakpoint
  split
  · split
    · exact h.overwriteWith s _ _
    · exact h.refl s
  · exact h.refl s

end Patching

/-- Code is only added, and a search that goes on for ever is not given up. -/
structure Grows (s s' : CodeStore) : Prop where
  size : s.code.ops.size ≤ s'.code.ops.size
  endless : s.endless = true → s'.endless = true

theorem Lengthened.grows {s s' : CodeStore} (h : Lengthened s s') : Grows s s' :=
  ⟨h.size, h.endless.trans⟩

theorem Grows.trans {s s' s'' : CodeStore} (h : Grows s s') (h' : Grows s' s'') : Grows s s'' :=
  ⟨Nat.le_trans h.size h'.size, fun hs => h'.endless (h.endless hs)⟩

theorem patching_grows : Patching Grows where
  refl s := (Lengthened.refl s).grows
  trans := Grows.trans
  redirect s address native := by
    unfold redirect
    split
    · exact (Lengthened.refl s).grows
    · exact ⟨CodeBuffer.size_emitAll { s.code with cursor := some native.toNat } [_, _], id⟩
  overwriteWith s site fragment := (s.lengthened_overwriteWith site fragment).grows
  goOn _ := ⟨Nat.le_refl _, fun _ => rfl⟩

theorem lengthened_locate (address : UInt32) : Lengthened s (s.locate view address).2 := by
  unfold locate
  dsimp only
  split
  · exact .refl s
  · exact (s.lengthened_compileBlock view _).trans (lengthened_compilePending _ view _)

theorem lengthened_refresh (address : UInt32) : Lengthened s (s.refresh view address).2 := by
  have hcompiled := lengthened_compileInstruction
    { s with counters := { s.counters with recompiled := s.counters.recompiled + 1 } } view
    (view.instructionAt (view.canonical address)) s.code.here false
  have hrecompiled : Lengthened s
      (s.recompile view (view.instructionAt (view.canonical address)) s.code.here) := by
    refine .trans ⟨hcompiled.size, hcompiled.endless⟩ ?_
    exact (lengthened_finish _ view _).trans (lengthened_compilePending _ view compileFuel)
  refine ⟨Nat.le_trans hrecompiled.size (s.size_refresh view address), ?_⟩
  rw [refresh_eq]
  dsimp only
  split
  · exact hrecompiled.endless
  · exact hrecompiled.endless

end CodeStore

/-- What happens to a processor: its store grows and it is the same processor still. -/
structure Cpu.Grows (x y : Cpu) : Prop where
  config : y.config = x.config
  store : x.store.Grows y.store

namespace Cpu

variable {x y z : Cpu}

theorem Grows.of_store (hconfig : y.config = x.config) (h : y.store = x.store) : Grows x y :=
  ⟨hconfig, h ▸ (CodeStore.Lengthened.refl _).grows⟩

theorem Grows.refl (x : Cpu) : Grows x x :=
  .of_store rfl rfl

theorem Grows.trans (h : Grows x y) (h' : Grows y z) : Grows x z :=
  ⟨h'.config.trans h.config, h.store.trans h'.store⟩

theorem Grows.fits (h : Grows x y) (hfits : y.Fits) : x.Fits :=
  Nat.lt_of_le_of_lt h.store.size hfits

theorem Grows.endless (h : Grows x y) (hends : y.store.endless = false) :
    x.store.endless = false :=
  Bool.eq_false_iff.mpr fun hx => Bool.false_ne_true (hends.symm.trans (h.store.endless hx))

theorem Grows.overfull (h : Grows x y) (hroom : y.overfull = false) : x.overfull = false := by
  have hsize := h.store.size
  simp only [Cpu.overfull, h.config, Bool.and_eq_false_iff, decide_eq_false_iff_not] at hroom ⊢
  refine hroom.imp_right fun hle hlt => hle ?_
  exact Nat.lt_of_lt_of_le hlt hsize

theorem quiet_grows : Quiet Grows where
  trans := Grows.trans
  pass _ _ _ := .of_store rfl rfl
  setFlag _ _ _ := .of_store rfl rfl
  afterWrite cpu _ _ action := by
    cases action <;> exact ⟨rfl, CodeStore.patching_grows.noteWrite cpu.store _ _ _⟩

theorem entered_grows : Entered Grows where
  setSr _ _ := .of_store rfl rfl
  setA _ _ _ := .of_store rfl rfl
  vectorTo cpu vector := by
    simp only [vectorTo]
    split <;> exact .of_store rfl rfl

variable (cpu : Cpu) (address : UInt32)

theorem grows_locate : Grows cpu (cpu.locate address).2 :=
  ⟨rfl, (cpu.store.lengthened_locate cpu.view address).grows⟩

theorem grows_refresh : Grows cpu (cpu.refresh address).2 :=
  ⟨rfl, (cpu.store.lengthened_refresh cpu.view address).grows⟩

theorem lasting_grows : Lasting Grows where
  toQuiet := quiet_grows
  note _ _ _ _ _ _ := .of_store rfl rfl
  locate := grows_locate
  addressError _ fault := entered_grows.addressError quiet_grows grows_locate fault
  exception _ vector pc := entered_grows.exception quiet_grows grows_locate vector pc

theorem attentive_grows : Attentive Grows where
  toLasting := lasting_grows
  refresh := grows_refresh
  restoreBoundary cpu _ native := ⟨rfl, (cpu.store.lengthened_overwriteWith native _).grows⟩
  latch _ := .of_store rfl rfl
  forget _ _ _ _ _ := .of_store rfl rfl
  interrupt cpu level pc := by
    refine entered_grows.interrupt lasting_grows ?_ pc
    simp only [acknowledge]
    split <;> exact .of_store rfl rfl

theorem grows_begin (target : UInt32) : Grows cpu (cpu.begin target).cpu := by
  have henter : Grows (cpu.aim target) _ := attentive_grows.enter (cpu.aim target)
  rcases cpu.begin_cpu target with heq | heq
  · rw [heq]
    exact ⟨henter.config, henter.store⟩
  · rw [heq]
    exact ⟨henter.config, henter.store⟩

end Cpu

namespace Session

theorem related_step {R : Cpu → Cpu → Prop} (s : Session)
    (hserve : ∀ service, R s.cpu (s.served service).cpu) (hrefl : R s.cpu s.cpu)
    (hfile : ∀ (x : Cpu) file, R s.cpu x → R s.cpu { x with registers := file }) :
    R s.cpu s.step.cpu := by
  rcases s.step_cases with ⟨service, hstep⟩ | ⟨machine, site, hstep⟩ | ⟨reason, hstep⟩
  · rw [hstep, serve_eq]
    unfold follow
    cases (s.served service).outcome with
    | resume offset =>
      cases (s.after service).machine.state.stack with
      | nil => exact hfile _ _ (hserve service)
      | cons => exact hserve service
    | _ => exact hserve service
  · rw [hstep]
    exact hrefl
  · rw [hstep]
    exact hfile _ _ hrefl

theorem grows_step (s : Session) : Grows s.cpu s.step.cpu :=
  s.related_step (fun service =>
      have hserved : Grows s.asked (s.served service).cpu :=
        attentive_grows.serve s.machine.state fun _ =>
          ⟨entered_grows.setSr, entered_grows.setA⟩
      ⟨hserved.config, hserved.store⟩)
    (.refl s.cpu) fun _ _ h => ⟨h.config, h.store⟩

theorem grows_advances {s s' : Session} (h : ReflTransGen Advances s s') :
    Grows s.cpu s'.cpu := by
  induction h with
  | refl => exact .refl _
  | @tail t t' _ hstep ih =>
    have hgrows := t.grows_step
    rw [hstep] at hgrows
    exact ih.trans hgrows

end Session

namespace Session

variable {s s' : Session} {answer : Except CpuError Unit × Cpu}

theorem advance_eq_step (hends : s.step.cpu.store.endless = false)
    (hroom : s.step.cpu.overfull = false) : s.advance = s.step := by
  rw [advance, hends, if_neg Bool.false_ne_true, Step.translated, hroom, if_neg Bool.false_ne_true]

/-- Steps that end are a run, unless a search goes on for ever or the code gets too long. -/
theorem Ends.halts_or_overfull (h : s.Ends answer) (hends : answer.2.store.endless = false) :
    s.Halts answer ∨ ∃ last, s.Halts (.error (.nativeCode last.store.code.size), last) := by
  obtain ⟨last, hpath, hdone⟩ := h
  have hlast : Grows last.cpu answer.2 := by
    have hgrows := last.grows_step
    rwa [hdone] at hgrows
  induction hpath using ReflTransGen.head_induction_on with
  | refl =>
    rcases last.advance_cases with ⟨hendless, -⟩ | ⟨-, ⟨-, heq⟩ | ⟨-, heq⟩⟩
    · rw [hdone] at hendless
      exact absurd (hends.symm.trans hendless) Bool.false_ne_true
    · exact .inl ⟨last, .refl, heq.trans hdone⟩
    · exact .inr ⟨last.step.cpu, last, .refl, heq⟩
  | @head t t' hstep hrest ih =>
    have hgrows := (grows_advances hrest).trans hlast
    rcases t.advance_cases with ⟨hendless, -⟩ | ⟨-, ⟨-, heq⟩ | ⟨-, heq⟩⟩
    · rw [hstep] at hendless
      exact absurd ((hgrows.endless hends).symm.trans hendless) Bool.false_ne_true
    · have hnext := heq.trans hstep
      refine ih.imp ?_ ?_
      · rintro ⟨last, hpath, hdone⟩
        exact ⟨last, .head hnext hpath, hdone⟩
      · rintro ⟨full, last, hpath, hdone⟩
        exact ⟨full, last, .head hnext hpath, hdone⟩
    · exact .inr ⟨t.step.cpu, t, .refl, heq⟩

/-- Steps that end are a run, if no search goes on for ever and the code has room. -/
theorem Ends.halts (h : s.Ends answer) (hends : answer.2.store.endless = false)
    (hroom : answer.2.overfull = false) : s.Halts answer := by
  obtain ⟨last, hpath, hdone⟩ := h
  have hlast : Grows last.cpu answer.2 := by
    have hgrows := last.grows_step
    rwa [hdone] at hgrows
  refine ⟨last, ?_, ?_⟩
  · induction hpath using ReflTransGen.head_induction_on with
    | refl => exact .refl
    | @head t t' hstep hrest ih =>
      have hgrows := (grows_advances hrest).trans hlast
      refine .head ?_ ih
      have hsame : t.advance = t.step := by
        apply advance_eq_step
        · rw [hstep]
          exact hgrows.endless hends
        · rw [hstep]
          exact hgrows.overfull hroom
      exact hsame.trans hstep
  · rw [advance_eq_step, hdone]
    · rw [hdone]
      exact hends
    · rw [hdone]
      exact hroom

end Session

theorem Cpu.restore_store {bytes : List UInt8} (cpu : Cpu) {restored : Cpu}
    (h : cpu.restore bytes = .ok restored) :
    restored.config = cpu.config ∧ restored.store = cpu.store := by
  unfold restore at h
  split at h
  · cases h
  · dsimp only at h
    rw [← Except.ok.inj h]
    simp only [updateLimit, setPc, and_self]

theorem Operation.grows_apply (cpu : Cpu) (operation : Operation) :
    Grows cpu (operation.apply cpu) := by
  cases operation with
  | write8 | write16 | write32 => exact Cpu.quiet_grows.written _ _ _ _
  | invalidate start stop => exact ⟨rfl, CodeStore.patching_grows.redirectRange cpu.store _ _ start stop⟩
  | restore bytes =>
    change Cpu.Grows cpu ((cpu.restore bytes).toOption.getD cpu)
    cases hrestored : cpu.restore bytes with
    | error e => exact .refl cpu
    | ok restored =>
      obtain ⟨hconfig, hstore⟩ := cpu.restore_store hrestored
      exact .of_store hconfig hstore
  | selectBank start bank =>
    unfold apply Cpu.selectBank
    dsimp only
    split
    · exact .of_store rfl rfl
    · exact .of_store rfl rfl
    · exact ⟨rfl, CodeStore.patching_grows.redirectRange cpu.store _ _ _ _⟩
  | insertBreakpoint address answers =>
    unfold apply Cpu.insertBreakpoint
    dsimp only
    split
    · exact ⟨rfl, (cpu.store.lengthened_setBreakpoint _ _).grows⟩
    · exact .of_store rfl rfl
  | removeBreakpoint address =>
    unfold apply Cpu.removeBreakpoint
    dsimp only
    split
    · split
      · exact ⟨rfl, (cpu.store.lengthened_overwriteWith _ _).grows⟩
      · exact .of_store rfl rfl
    · exact .of_store rfl rfl
  | reset =>
    refine .of_store ?_ ?_ <;>
      simp only [apply, Cpu.reset, Cpu.read32, Cpu.setA, Cpu.setPc, Cpu.setSr, Cpu.updateLimit]
  | setCcr | setSr =>
    refine .of_store ?_ ?_ <;> simp only [apply, Cpu.setCcr, Cpu.setSr, Cpu.updateLimit]
  | setD | setA | setFlag | setPc | setInterrupt | adjustCycles | requestReturn | observe
  | takeEvents | takeAcknowledged | changeMemory => exact .of_store rfl rfl

theorem Moment.Next.grows {allowed : Operation → Prop} {m m' : Moment}
    (h : ReflTransGen (Next allowed) m m') : Grows m.cpu m'.cpu := by
  induction h with
  | refl => exact .refl _
  | tail _ hnext ih =>
    refine ih.trans ?_
    cases hnext with
    | operate cpu operation _ => exact operation.grows_apply cpu
    | begin cpu target =>
      rw [Step.moment_cpu]
      exact cpu.grows_begin target
    | step session =>
      rw [Step.moment_cpu]
      exact session.grows_step
    | overfull session => exact session.grows_step

end Dynarec68k
