import Dynarec68k.Proofs.CodeGrowth
import Dynarec68k.Proofs.CoupledRuns

namespace Dynarec68k

open Host Relation Session

variable {answer : Except CpuError Unit × Cpu}

namespace Coupling

variable {C : Coupling} {P : Pair → Prop} {w : Watch} {x y : Cpu}

variable (C) in
/-- Runs that begin at the same unit, or are over at once with the same answer. -/
def Begins (w : Watch) (P : Pair → Prop) (r r' : Step) : Prop :=
  (∃ s t, r = (Step.next s).translated ∧ r' = (Step.next t).translated ∧ C.Meets w P s t ∧
    s.machine.file = s.cpu.registers) ∨
    ∃ result c c', r = .done result c ∧ r' = .done result c' ∧ Benign result ∧
      w.Sees c c.registers ∧ C.Twins P c c'

theorem Twins.started (h : C.Twins P x y) :
    Alike .loose C.left C.right (x.loadHost State.initial) (y.loadHost State.initial) := by
  have hloaded := h.loaded (σ := State.initial) (τ := State.initial) (g := .loose) nofun
    (fun _ _ _ => rfl) rfl
  have hstack (cpu : Cpu) : (cpu.loadHost State.initial).state.stack = [] :=
    cpu.loadHost_stack State.initial
  rwa [Machine.unstacked_of_stack (hstack x), Machine.unstacked_of_stack (hstack y)] at hloaded

theorem Twins.begin (h : C.Twins P x y) (hsees : w.Sees x x.registers) (target : UInt32)
    (hfit : C.Fit (x.begin target).cpu (y.begin target).cpu) :
    ∃ P' : Pair → Prop, C.Adds P P' (x.begin target).cpu ∧
      C.Begins w P' (x.begin target) (y.begin target) := by
  have hready := h.change (·.aim target) (fun _ _ _ => rfl) fun _ => .refl _
  have hconfined := Cpu.attentive_confined.enter (x.aim target)
  have hsees' := hsees.change hconfined.counted fun _ => hconfined.kept
  have hbegin (cpu : Cpu) : (cpu.begin target).cpu.Fits → (cpu.aim target).enter.2.Fits := by
    intro hfits
    rcases cpu.begin_cpu target with heq | heq
    · rwa [heq] at hfits
    · rwa [heq] at hfits
  have henters := hready.enter ⟨hbegin x hfit.left, hfit.right.imp_right (hbegin y)⟩
  unfold Cpu.begin
  generalize (x.aim target).enter = r at henters hsees' ⊢
  generalize (y.aim target).enter = r' at henters ⊢
  obtain ⟨outcome, entered⟩ := r
  obtain ⟨outcome', entered'⟩ := r'
  rcases henters with ⟨htwins, rfl, rfl⟩ | ⟨entry, entry', hlands, rfl, rfl⟩
  · exact ⟨P, .refl _, .inr ⟨_, _, _, rfl, rfl, (fun _ he => nomatch he), hsees', htwins⟩⟩
  · obtain ⟨P', hadds, htwins, ⟨q, hq, rfl, rfl⟩ | ⟨e, he, rfl, rfl⟩⟩ := hlands
    · have hlimited := htwins.change Cpu.updateLimit (fun _ _ _ => rfl) fun _ => .refl _
      have htranslated : C.Adds P P'
          (Step.next (start entered.updateLimit q.left.toUInt32)).translated.cpu := by
        rw [Step.translated_cpu]
        exact hadds.change rfl (.refl _)
      refine ⟨P', htranslated, .inl ⟨_, _, rfl, rfl, ?_, rfl⟩⟩
      exact .head (p := q) hlimited (hsees'.change (Nat.le_refl _) fun _ _ _ _ => rfl) hq rfl rfl
        hlimited.started
    · refine ⟨P', hadds.change rfl (.refl _), .inr ⟨_, _, _, rfl, rfl, ?_, hsees', htwins⟩⟩
      intro e' he'
      rw [← Except.error.inj he']
      exact he

theorem Leads.advance {T s s' : Session} (hright : C.Roomy T)
    (h : C.Leads w T P s) (hpath : ReflTransGen Advances s s') (hfits : s'.cpu.Fits) :
    ∃ P' : Pair → Prop, (∀ p, P p → P' p) ∧ C.Leads w T P' s' := by
  induction hpath using ReflTransGen.head_induction_on generalizing P with
  | refl => exact ⟨P, fun _ hp => hp, h⟩
  | @head r r' hstep hrest ih =>
    have hroom := (grows_advances hrest).fits hfits
    obtain ⟨P', hadds, -, hleads⟩ := (h.step hright).next r' hstep hroom
    obtain ⟨P'', hmono, hleads'⟩ := ih hleads
    exact ⟨P'', fun p hp => hmono p (hadds.keeps p hp), hleads'⟩

theorem Leads.ends {T s : Session} (hright : C.Roomy T) (h : C.Leads w T P s)
    (hends : s.Ends answer) (hfits : answer.2.Fits) :
    ∃ P' : Pair → Prop, (∀ p, P p → P' p) ∧ C.Finishes w T P' answer.1 answer.2 := by
  obtain ⟨s', hpath, hdone⟩ := hends
  have hgrows := s'.grows_step
  rw [hdone] at hgrows
  obtain ⟨P', hmono, hleads⟩ := h.advance hright hpath (hgrows.fits hfits)
  obtain ⟨P'', hadds, hfinishes⟩ := (hleads.step hright).done _ _ hdone hfits
  exact ⟨P'', fun p hp => hadds.keeps p (hmono p hp), hfinishes⟩

end Coupling

namespace Cpu

/-- Something holds of a processor from the start of a run on, as long as the run goes on. -/
def Throughout (Q : Cpu → Prop) (cpu : Cpu) (target : UInt32) : Prop :=
  Q (cpu.begin target).cpu ∧ ∀ s, cpu.begin target = .next s →
    ∀ s', ReflTransGen Advances s s' → Q s'.step.cpu

variable {cpu : Cpu} {target : UInt32}

theorem RunsTo.grows (h : cpu.RunsTo target answer) : Grows (cpu.begin target).cpu answer.2 := by
  unfold RunsTo at h
  cases hbegin : cpu.begin target with
  | next s =>
    rw [hbegin] at h
    obtain ⟨-, ⟨-, last, hpath, hdone⟩ | ⟨-, -, last, hpath, -, hcpu⟩⟩ := h.cases (begin_room hbegin)
    · have hlast := last.grows_step
      rw [hdone] at hlast
      exact (grows_advances hpath).trans hlast
    · exact (grows_advances hpath).trans (hcpu ▸ last.grows_step)
  | done result last =>
    rw [hbegin] at h
    obtain ⟨-, rfl⟩ := h
    exact .refl last

/-- What holds at the end of a run and of every smaller store holds all through the run. -/
theorem RunsTo.throughout {Q : Cpu → Prop} (h : cpu.RunsTo target answer)
    (hroom : answer.2.overfull = false) (hQ : Q answer.2) (hsmaller : ∀ x y, Grows x y → Q y → Q x) :
    cpu.Throughout Q target := by
  refine ⟨hsmaller _ _ h.grows hQ, ?_⟩
  rintro s hbegin t ht
  unfold RunsTo at h
  rw [hbegin] at h
  obtain ⟨-, ⟨-, last, hpath, hdone⟩ | ⟨hfull, -⟩⟩ := h.cases (begin_room hbegin)
  · rcases (advances_of_ends hpath hdone ht).cases_head with heq | ⟨next, hstep, hrest⟩
    · rw [heq, hdone]
      exact hQ
    · have hlast := last.grows_step
      rw [hdone] at hlast
      rw [hstep]
      exact hsmaller _ _ ((grows_advances hrest).trans hlast) hQ
  · exact absurd (hroom.symm.trans hfull) Bool.false_ne_true

/-- The code of a processor fits, also into the space of the native backend. -/
structure Roomy (cpu : Cpu) : Prop where
  fits : cpu.Fits
  native : cpu.overfull = false

theorem Grows.roomy {x y : Cpu} (h : Grows x y) (hy : y.Roomy) : x.Roomy :=
  ⟨h.fits hy.fits, h.overfull hy.native⟩

end Cpu

namespace Step

theorem translated_eq {r : Step} (h : r.cpu.overfull = false) : r.translated = r := by
  rw [translated, h, if_neg Bool.false_ne_true]

theorem translated_room {r : Step} (h : r.translated.cpu.overfull = false) : r.translated = r :=
  translated_eq (r.translated_cpu ▸ h)

end Step

namespace Coupling

variable {C : Coupling} {P : Pair → Prop} {x y : Cpu}

theorem Twins.endless (h : C.Twins P x y) : x.store.endless = y.store.endless := by
  obtain ⟨c, s, t, rfl, rfl, hrel⟩ := h
  exact (C.linked hrel).endless

/-- The first of two processors runs, and the second can do so as well. -/
theorem Twins.runs (h : C.Twins P x y) {target : UInt32} (hy : y.Throughout Cpu.Roomy target)
    (hrun : x.RunsTo target answer) (hroom : answer.2.Roomy) :
    ∃ (P' : Pair → Prop) (last : Cpu), (∀ p, P p → P' p) ∧
      y.RunsTo target (answer.1, last) ∧ C.Twins P' answer.2 last := by
  -- nothing is watched
  let w : Watch := ⟨x.registers, none, fun h => absurd rfl h⟩
  have hsees : w.Sees x x.registers := ⟨nofun, nofun⟩
  have hx := hrun.grows.roomy hroom
  obtain ⟨P', hadds, ⟨s, t, hs, ht, hmeets, -⟩ | ⟨result, c, c', hs, ht, -, -, htwins⟩⟩ :=
    h.begin hsees target ⟨hx.fits, .inr hy.1.fits⟩
  · rw [hs] at hx
    rw [Step.translated_room hx.native] at hs
    have hstart := hy.1.native
    rw [ht] at hstart
    rw [Step.translated_room hstart] at ht
    have hright : C.Roomy t := .inr fun t' ht' => (hy.2 t ht t' ht').fits
    unfold Cpu.RunsTo at hrun ⊢
    rw [hs] at hrun
    rw [ht]
    obtain ⟨hends, ⟨-, hsteps⟩ | ⟨hfull, -⟩⟩ := hrun.cases (Cpu.begin_room hs)
    · obtain ⟨P'', hmono, -, -, t', last, hpath, hdone, htwins⟩ :=
        (Leads.meet .refl hmeets).ends hright hsteps hroom.fits
      refine ⟨P'', last, fun p hp => hmono p (hadds.keeps p hp), ?_, htwins⟩
      have hlast := (hy.2 t ht t' hpath).native
      rw [hdone] at hlast
      exact Ends.halts ⟨t', hpath, hdone⟩ (htwins.endless ▸ hends) hlast
    · exact absurd (hroom.native.symm.trans hfull) Bool.false_ne_true
  · unfold Cpu.RunsTo at hrun ⊢
    rw [hs] at hrun
    rw [ht]
    obtain ⟨hends, rfl⟩ := hrun
    exact ⟨P', c', hadds.keeps, ⟨htwins.endless ▸ hends, rfl⟩, htwins⟩

theorem Twins.runs_benign (h : C.Twins P x y) (hside : C.OneSided) {target : UInt32}
    (hrun : x.RunsTo target answer) (hfits : answer.2.Fits) : Benign answer.1 := by
  let w : Watch := ⟨x.registers, none, fun h => absurd rfl h⟩
  have hsees : w.Sees x x.registers := ⟨nofun, nofun⟩
  have hnative (size : Nat) : Benign (.error (.nativeCode size)) := by
    intro e he
    cases he
    rfl
  obtain ⟨P', hadds, ⟨s, t, hs, ht, hmeets, -⟩ | ⟨result, c, c', hs, ht, hbenign, -, -⟩⟩ :=
    h.begin hsees target ⟨hrun.grows.fits hfits, .inl hside⟩
  · unfold Cpu.RunsTo at hrun
    rcases (Step.next s).translated_cases with heq | heq
    · rw [heq] at hs
      rw [hs] at hrun
      obtain ⟨-, ⟨-, hsteps⟩ | ⟨-, hanswer, -⟩⟩ := hrun.cases (Cpu.begin_room hs)
      · obtain ⟨-, -, hbenign, -⟩ := (Leads.meet .refl hmeets).ends (.inl hside) hsteps hfits
        exact hbenign
      · rw [hanswer]
        exact hnative _
    · rw [hs, heq] at hrun
      rw [hrun.2]
      exact hnative _
  · unfold Cpu.RunsTo at hrun
    rw [hs] at hrun
    rw [hrun.2]
    exact hbenign

variable {w : Watch}

variable (C) in
/-- What is known of a processor at a moment. -/
def Tracks (w : Watch) (P : Pair → Prop) : Moment → Prop
  | .idle cpu => (∃ y, C.Twins P cpu y) ∧ w.Sees cpu cpu.registers
  | .running s => C.Holds w P s ∧ ∃ T, C.Leads w T P s

theorem Tracks.begin {cpu : Cpu} (hside : C.OneSided) (h : C.Tracks w P (.idle cpu))
    (target : UInt32) (hfits : (cpu.begin target).cpu.Fits) :
    ∃ P' : Pair → Prop, C.Adds P P' (cpu.begin target).cpu ∧
      C.Tracks w P' (cpu.begin target).moment ∧
      ∀ result c, cpu.begin target = .done result c → Benign result := by
  obtain ⟨⟨y, htwins⟩, hsees⟩ := h
  obtain ⟨P', hadds, ⟨s, t, hs, -, hmeets, hfile⟩ |
      ⟨result, c, c', hs, -, hbenign, hsees', htwins'⟩⟩ :=
    htwins.begin hsees target ⟨hfits, .inl hside⟩
  · have hholds := hmeets.holds
    rcases (Step.next s).translated_cases with heq | heq
    · rw [hs, heq] at hadds ⊢
      exact ⟨P', hadds, ⟨hholds, t, .meet .refl hmeets⟩, fun _ _ hdone => by cases hdone⟩
    · rw [hs, heq] at hadds ⊢
      refine ⟨P', hadds, ⟨hholds.twins, hfile ▸ hholds.sees⟩, fun result c hdone e he => ?_⟩
      cases hdone
      cases he
      rfl
  · rw [hs] at hadds ⊢
    refine ⟨P', hadds, ⟨⟨c', htwins'⟩, hsees'⟩, fun result' c'' hdone => ?_⟩
    rw [← (Step.done.inj hdone).1]
    exact hbenign

theorem Tracks.step {s : Session} (hside : C.OneSided) (h : C.Tracks w P (.running s))
    (hfits : s.step.cpu.Fits) :
    ∃ P' : Pair → Prop, C.Adds P P' s.step.cpu ∧ C.Tracks w P' s.step.moment ∧
      ∀ result c, s.step = .done result c → Benign result := by
  obtain ⟨-, T, hleads⟩ := h
  have hgoes := hleads.step (.inl hside)
  cases hstep : s.step with
  | next s' =>
    rw [hstep] at hfits
    obtain ⟨P', hadds, hholds, hleads'⟩ := hgoes.next s' hstep hfits
    exact ⟨P', hadds, ⟨hholds, T, hleads'⟩, fun _ _ hdone => nomatch hdone⟩
  | done result c =>
    rw [hstep] at hfits
    obtain ⟨P', hadds, hbenign, hsees, t, c', -, -, htwins⟩ := hgoes.done result c hstep hfits
    refine ⟨P', hadds, ⟨⟨c', htwins⟩, hsees⟩, fun result' c'' hdone => ?_⟩
    rw [← (Step.done.inj hdone).1]
    exact hbenign

/-- A run that is over because its code has become too long. -/
theorem Tracks.overfull {s : Session} (hside : C.OneSided) (h : C.Tracks w P (.running s))
    (hroom : s.cpu.overfull = false) (hfull : s.step.cpu.overfull = true)
    (hfits : s.step.cpu.Fits) :
    ∃ P' : Pair → Prop, C.Adds P P' s.step.cpu ∧ C.Tracks w P' (.idle s.step.cpu) := by
  obtain ⟨P', hadds, htracks, -⟩ := h.step hside hfits
  refine ⟨P', hadds, ?_⟩
  rcases step_overfull hroom hfull with ⟨result, c, hstep⟩ | ⟨s', hstep, -, hfile⟩
  · rw [hstep] at htracks ⊢
    exact htracks
  · rw [hstep] at htracks ⊢
    obtain ⟨hholds, -⟩ := htracks
    exact ⟨hholds.twins, hfile ▸ hholds.sees⟩

end Coupling

end Dynarec68k
