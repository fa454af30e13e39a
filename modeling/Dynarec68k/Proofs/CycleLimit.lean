import Dynarec68k.Proofs.OneProcessor

namespace Dynarec68k

open Host Relation

variable {cpu : Cpu} {config : Config}

namespace Cpu

/-- The cycle limit is no later than it has to be. -/
def Timely (cpu : Cpu) : Prop :=
  cpu.limit ≤ cpu.dueLimit

def IsDue (cpu : Cpu) : Prop :=
  cpu.target ≤ cpu.cycle ∨ cpu.returnRequested = true ∨ cpu.latched.isSome = true ∨
    cpu.tracePending = true ∨ cpu.registers.tracing = true ∨
    cpu.deliverable?.isSome = true ∧ cpu.request.cycle ≤ cpu.cycle

theorem dueLimit_le (h : cpu.IsDue) : cpu.dueLimit ≤ cpu.cycle := by
  unfold dueLimit
  split
  · exact UInt32.zero_le
  · rename_i hlook
    simp only [mustLook, Bool.or_eq_true, not_or] at hlook
    obtain ⟨⟨⟨hreturn, hlatched⟩, htrace⟩, htracing⟩ := hlook
    rcases h with htarget | h | h | h | h | ⟨hdeliverable, hcycle⟩
    · split
      · exact UInt32.le_trans Std.min_le_left htarget
      · exact htarget
    · exact absurd h hreturn
    · exact absurd h hlatched
    · exact absurd h htrace
    · exact absurd h htracing
    · rw [if_pos hdeliverable]
      exact UInt32.le_trans Std.min_le_right hcycle

structure Eases (x y : Cpu) : Prop where
  limit : y.limit = x.limit
  target : y.target = x.target
  looks : y.mustLook = true → x.mustLook = true
  due : y.deliverable?.isSome = true → x.deliverable?.isSome = true ∧ y.request = x.request

namespace Timely

variable {cpu x y : Cpu}

theorem eases (h : x.Timely) (heases : Eases x y) : y.Timely := by
  refine UInt32.le_trans (UInt32.le_of_eq heases.limit) (UInt32.le_trans h ?_)
  have htarget := heases.target
  unfold dueLimit
  by_cases hlook : y.mustLook = true
  · rw [if_pos (heases.looks hlook)]
    exact UInt32.zero_le
  · rw [if_neg hlook]
    split
    · exact UInt32.zero_le
    · by_cases hdue : y.deliverable?.isSome = true
      · obtain ⟨hdue', hrequest⟩ := heases.due hdue
        rw [if_pos hdue, if_pos hdue', htarget, hrequest]
        exact UInt32.le_refl _
      · rw [if_neg hdue, htarget]
        split
        · exact Std.min_le_left
        · exact UInt32.le_refl _

theorem refit (h : cpu.Timely) {registers : RegisterFile}
    (hstatus : registers.status = cpu.registers.status) :
    Timely { cpu with registers := registers } := by
  have htracing : registers.tracing = cpu.registers.tracing := by
    rw [RegisterFile.tracing, hstatus]
    rfl
  have hmask : registers.interruptMask = cpu.registers.interruptMask := by
    rw [RegisterFile.interruptMask, hstatus]
    rfl
  refine h.eases ⟨rfl, rfl, fun hlook => ?_, fun hdue => ⟨?_, rfl⟩⟩
  · simpa only [mustLook, htracing] using hlook
  · simpa only [deliverable?, hmask] using hdue

theorem setA (h : cpu.Timely) (n : Nat) (value : UInt32) : (cpu.setA n value).Timely :=
  h.refit (cpu.registers.status_setA n value)

theorem setFlag (h : cpu.Timely) (flag : Flag) (value : Bool) : (cpu.setFlag flag value).Timely :=
  h.refit (cpu.registers.status_setFlag flag value)

theorem afterWrite (h : cpu.Timely) (address : UInt32) (bytes : Nat) (action : DeviceAction) :
    (cpu.afterWrite address bytes action).Timely := by
  cases action with
  | proceed => exact h
  | yield => exact UInt32.zero_le

theorem vectorTo (h : cpu.Timely) (vector : Nat) : (cpu.vectorTo vector).2.Timely := by
  have hspent (c : Cpu) (hc : c.Timely) (clocks : Nat) (counters : EventCounters) :
      Timely { c.spend clocks with counters := counters, tracePending := false, stopped := false } := by
    refine hc.eases ⟨rfl, rfl, fun hlook => ?_, fun hdue => ⟨hdue, rfl⟩⟩
    simp only [mustLook, Bool.or_eq_true, Bool.false_eq_true, or_false] at hlook ⊢
    rcases hlook with (hreturn | hlatched) | htracing
    · exact .inl (.inl (.inl hreturn))
    · exact .inl (.inl (.inr hlatched))
    · exact .inr htracing
  have hread : (cpu.read32 (4 * vector).toUInt32).2.Timely := h
  simp only [Cpu.vectorTo]
  let counters := { cpu.counters with exceptions := cpu.counters.exceptions + 1 }
  split
  · exact hspent _ hread _ counters
  · exact hspent _ hread _ counters

end Timely

theorem quiet_timely : Quiet fun x y => x.Timely → y.Timely where
  trans h h' := h' ∘ h
  pass _ _ _ := id
  setFlag _ flag value h := h.setFlag flag value
  afterWrite _ address bytes action h := h.afterWrite address bytes action

theorem entered_timely : Entered fun x y => x.Timely → y.Timely where
  setSr _ _ _ := UInt32.le_refl _
  setA _ n value h := h.setA n value
  vectorTo _ vector h := h.vectorTo vector

theorem lasting_timely : Lasting fun x y => x.Timely → y.Timely where
  toQuiet := quiet_timely
  note _ _ _ _ _ _ := id
  locate _ _ := id
  addressError _ fault := entered_timely.addressError quiet_timely (fun _ _ => id) fault
  exception _ vector pc := entered_timely.exception quiet_timely (fun _ _ => id) vector pc

theorem Timely.acknowledge (h : cpu.Timely) (level : UInt8) : (cpu.acknowledge level).Timely := by
  have hnoted (c : Cpu) (hlimit : c.limit = cpu.limit) (htarget : c.target = cpu.target)
      (hlook : c.mustLook = cpu.mustLook) (hrequest : c.request = .none) : c.Timely := by
    refine h.eases ⟨hlimit, htarget, fun hc => hlook ▸ hc, fun hdue => ?_⟩
    simp only [deliverable?, hrequest] at hdue
    cases hdue
  simp only [Cpu.acknowledge]
  split <;> exact hnoted _ rfl rfl rfl rfl

theorem attentive_timely : Attentive fun x y => x.Timely → y.Timely where
  toLasting := lasting_timely
  refresh _ _ := id
  restoreBoundary _ _ _ := id
  latch _ _ := UInt32.le_refl _
  forget x latched pending hlatched hpending h := by
    have hsome : latched.isSome = true → x.latched.isSome = true := by
      rcases hlatched with rfl | rfl
      · exact fun hnone => by cases hnone
      · exact id
    have hpends : pending = true → x.tracePending = true := by
      rcases hpending with rfl | rfl
      · exact fun hfalse => by cases hfalse
      · exact id
    refine h.eases ⟨rfl, rfl, fun hlook => ?_, fun hdue => ⟨hdue, rfl⟩⟩
    simp only [mustLook, Bool.or_eq_true] at hlook ⊢
    exact hlook.imp_left (Or.imp (Or.imp_right hsome) hpends)
  interrupt _ level pc h := entered_timely.interrupt lasting_timely (·.acknowledge level) pc h

end Cpu

/-- In the middle of a run the cycle limit is no later than it has to be. -/
def Moment.Timely : Moment → Prop
  | idle _ => True
  | running s => s.asked.Timely

theorem Cpu.timely_begin (cpu : Cpu) (target : UInt32) : (cpu.begin target).moment.Timely := by
  unfold Cpu.begin
  generalize (cpu.aim target).enter = r
  obtain ⟨_ | _ | entry, entered⟩ := r
  · exact trivial
  · exact trivial
  · have hasked : (Session.start entered.updateLimit entry).asked = entered.updateLimit :=
      Cpu.storeHost_loadHost _ _
    have hstarted : (Session.start entered.updateLimit entry).asked.Timely := by
      rw [hasked]
      exact UInt32.le_refl _
    dsimp only
    rcases (Step.next (Session.start entered.updateLimit entry)).translated_cases with heq | heq
    · rw [heq]
      exact hstarted
    · rw [heq]
      exact trivial

namespace Session

variable {s : Session}

theorem timely_serve (h : s.asked.Timely) (service : Service) :
    (s.serve service).moment.Timely := by
  have hserved : (s.served service).cpu.Timely :=
    Cpu.attentive_timely.serve _
      (fun _ => ⟨Cpu.entered_timely.setSr, Cpu.entered_timely.setA⟩) h
  have hloaded : (s.after service).asked.Timely := by
    have hasked : (s.after service).asked = (s.served service).cpu := Cpu.storeHost_loadHost _ _
    rw [hasked]
    exact hserved
  rw [s.serve_eq]
  cases (s.served service).outcome with
  | proceed => exact hloaded
  | jump native => exact hloaded
  | leave => exact trivial
  | fail e => exact trivial
  | resume offset =>
    unfold Session.follow
    dsimp only
    split
    · exact hloaded
    · exact trivial

theorem timely_step {u : Bool} (h : s.asked.Timely) (hplain : Coupling.Plain u s) :
    s.step.moment.Timely := by
  cases hplain with
  | @moves machine site hstep hkept =>
    rw [hstep]
    have hstatus : (s.cpu.storeHost machine).registers.status = s.asked.registers.status := by
      have hspill (m : Machine) : (s.cpu.config.registerAssignment.spill m).status = m.file.status :=
        s.cpu.config.registerAssignment.spill_kept m (u := u) (.inr rfl)
      exact (hspill machine).trans ((hkept.kept _ (.inr rfl)).trans (hspill s.machine).symm)
    have hrefit := h.refit hstatus
    refine hrefit.eases ⟨hkept.limit, rfl, id, fun hdue => ⟨hdue, rfl⟩⟩
  | turns hstep =>
    rw [hstep]
    exact h
  | @serves service hstep _ =>
    rw [hstep]
    exact timely_serve h service

end Session

theorem Coupling.Tracks.timely {map : MemoryMap} {allowed allowed' : Operation → Prop}
    {U : Upkeep config map allowed} {P : Pair → Prop} {w : Watch} {m m' : Moment}
    (h : (alone U).Tracks w P m) (htimely : m.Timely) (hnext : Moment.Next allowed' m m') :
    m'.Timely := by
  cases hnext with
  | operate => exact trivial
  | begin cpu target => exact cpu.timely_begin target
  | step s =>
    obtain ⟨-, T, hleads⟩ := h
    exact Session.timely_step htimely (hleads.step (.inl oneSided_alone)).plain
  | overfull => exact trivial

/-- From the creation of a processor on, in the middle of every run the limit is in order. -/
theorem Cpu.IsNew.timely {memory : MemoryMap} (hnew : cpu.IsNew config memory)
    {allowed : Operation → Prop} {m : Moment}
    (hpath : ReflTransGen (Moment.Next allowed) (.idle cpu) m) (hfits : m.cpu.Fits) :
    m.Timely := by
  induction hpath with
  | refl => exact trivial
  | tail hpath hnext ih =>
    have hgrows := Moment.Next.grows (.single hnext)
    have hfits' := hgrows.fits hfits
    obtain ⟨P, htracks⟩ := hnew.tracks (.trivial config memory) trivial (fun _ _ => trivial) hpath
      hfits' cpu.registers
    exact htracks.timely (ih hfits') hnext

end Dynarec68k
