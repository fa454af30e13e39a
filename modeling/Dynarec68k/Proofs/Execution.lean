import Dynarec68k.Cpu.Run
import Dynarec68k.Cpu.Snapshot
import Dynarec68k.Proofs.MemoryShape
import Mathlib.Logic.Relation

namespace Dynarec68k

open Relation

variable {result : Except CpuError Unit} {answer : Except CpuError Unit × Cpu} {s s' : Session}
  {count : Nat} {target : UInt32}

/-- What can be asked of a processor between runs. -/
inductive Operation where
  | setD (n : Nat) (value : UInt32)
  | setA (n : Nat) (value : UInt32)
  | setCcr (ccr : UInt8)
  | setFlag (flag : Flag) (value : Bool)
  | setSr (sr : UInt16)
  | setPc (pc : UInt32)
  | setInterrupt (level : UInt8) (cycle : UInt32)
  | adjustCycles (deduction : UInt32)
  | requestReturn
  | reset
  | restore (bytes : List UInt8)
  | write8 (address : UInt32) (value : UInt8)
  | write16 (address : UInt32) (value : UInt16)
  | write32 (address : UInt32) (value : UInt32)
  | invalidate (start stop : UInt32)
  | selectBank (start : UInt32) (bank : Nat)
  | insertBreakpoint (address : UInt32) (answers : Nat → BreakpointAnswer)
  | removeBreakpoint (address : UInt32)
  | observe
  | takeEvents
  | takeAcknowledged
  /-- Memory may be changed behind the processor's back, but its ranges stay. -/
  | changeMemory (change : MemoryMap → MemoryMap) (shape : ∀ m : MemoryMap, m.SameShape (change m))

namespace Operation

/-- Requests that are refused change nothing. -/
def apply (cpu : Cpu) : Operation → Cpu
  | setD n value => cpu.setD n value
  | setA n value => cpu.setA n value
  | setCcr ccr => cpu.setCcr ccr
  | setFlag flag value => cpu.setFlag flag value
  | setSr sr => cpu.setSr sr
  | setPc pc => cpu.setPc pc
  | setInterrupt level cycle => cpu.setInterrupt level cycle
  | adjustCycles deduction => cpu.adjustCycles deduction
  | requestReturn => cpu.requestReturn
  | reset => cpu.reset
  | restore bytes => (cpu.restore bytes).toOption.getD cpu
  | write8 address value => cpu.write8 address value
  | write16 address value => cpu.write16 address value
  | write32 address value => cpu.write32 address value
  | invalidate start stop => cpu.invalidate start stop
  | selectBank start bank => (cpu.selectBank start bank).toOption.getD cpu
  | insertBreakpoint address answers => cpu.insertBreakpoint address answers
  | removeBreakpoint address => (cpu.removeBreakpoint address).2
  | observe => cpu.observe
  | takeEvents => cpu.takeEvents.2
  | takeAcknowledged => cpu.takeAcknowledged.2
  | changeMemory change _ => { cpu with memory := change cpu.memory }

end Operation

/-- A processor between runs or in the middle of one. -/
inductive Moment where
  | idle (cpu : Cpu)
  | running (session : Session)

namespace Moment

/-- In the middle of a run the registers of this processor are out of date. -/
def cpu : Moment → Cpu
  | idle cpu => cpu
  | running session => session.cpu

end Moment

def Step.moment : Step → Moment
  | .next session => .running session
  | .done _ cpu => .idle cpu

theorem Step.moment_cpu (step : Step) : step.moment.cpu = step.cpu := by
  cases step <;> rfl

theorem Step.translated_cpu (step : Step) : step.translated.cpu = step.cpu := by
  unfold translated
  split <;> rfl

theorem Step.translated_cases (step : Step) :
    step.translated = step ∨
      step.translated = .done (.error (.nativeCode step.cpu.store.code.size)) step.cpu := by
  unfold translated
  split
  · exact .inr rfl
  · exact .inl rfl

theorem Step.eq_of_translated {step : Step} (h : step.translated = .next s) : step = .next s := by
  rcases step.translated_cases with heq | heq
  · exact heq.symm.trans h
  · cases heq.symm.trans h

/-- What happens next: an operation, of those allowed, or the start of a run, and in a run one step,
or the end of the run because the code has become too long. What would come after a search that
never ends counts as well. -/
inductive Moment.Next (allowed : Operation → Prop) : Moment → Moment → Prop
  | operate (cpu : Cpu) (operation : Operation) (h : allowed operation) :
      Next allowed (.idle cpu) (.idle (operation.apply cpu))
  | begin (cpu : Cpu) (target : UInt32) : Next allowed (.idle cpu) (cpu.begin target).moment
  | step (session : Session) : Next allowed (.running session) session.step.moment
  | overfull (session : Session) (hroom : session.cpu.overfull = false)
      (hfull : session.step.cpu.overfull = true) :
      Next allowed (.running session) (.idle session.step.cpu)

namespace Session

def Advances (s s' : Session) : Prop :=
  s.step = .next s'

/-- The steps from a session on end with an answer. -/
def Ends (s : Session) (answer : Except CpuError Unit × Cpu) : Prop :=
  ∃ s', ReflTransGen Advances s s' ∧ s'.step = .done answer.1 answer.2

/-- A run ends with an answer. -/
def Halts (s : Session) (answer : Except CpuError Unit × Cpu) : Prop :=
  ∃ s', ReflTransGen (fun t t' => t.advance = .next t') s s' ∧
    s'.advance = .done answer.1 answer.2

theorem run_of_next (h : s.advance = .next s') : s.run = s'.run := by
  have : Nonempty (Except CpuError Unit × Cpu) := ⟨(.ok (), s.cpu)⟩
  rw [run, repeatM_eq_of_monadTail]
  simp only [repeatM.body, h, Option.bind_eq_bind, Option.bind_some]
  rfl

theorem run_of_done {cpu : Cpu} (h : s.advance = .done result cpu) :
    s.run = some (result, cpu) := by
  have : Nonempty (Except CpuError Unit × Cpu) := ⟨(.ok (), s.cpu)⟩
  rw [run, repeatM_eq_of_monadTail]
  simp only [repeatM.body, h, Option.bind_eq_bind, Option.bind_some]
  rfl

theorem run_of_steps (h : ReflTransGen (fun t t' => t.advance = .next t') s s') :
    s.run = s'.run := by
  induction h with
  | refl => rfl
  | tail _ hstep ih => exact ih.trans (run_of_next hstep)

theorem Halts.run_eq (h : s.Halts answer) : s.run = some answer := by
  obtain ⟨s', hsteps, hdone⟩ := h
  rw [run_of_steps hsteps, run_of_done hdone]

theorem advance_cases (s : Session) :
    s.step.cpu.store.endless = true ∧ s.advance = .next s ∨
      s.step.cpu.store.endless = false ∧
        (s.step.cpu.overfull = false ∧ s.advance = s.step ∨
          s.step.cpu.overfull = true ∧
            s.advance = .done (.error (.nativeCode s.step.cpu.store.code.size)) s.step.cpu) := by
  unfold advance Step.translated
  cases s.step.cpu.store.endless <;> cases s.step.cpu.overfull <;> simp

theorem path_of_advance (hroom : s.cpu.overfull = false) (h : s.advance = .next s') :
    s'.cpu.overfull = false ∧ ReflTransGen Advances s s' := by
  rcases s.advance_cases with ⟨-, hsame⟩ | ⟨-, ⟨hnext, hstep⟩ | ⟨-, hdone⟩⟩
  · cases hsame.symm.trans h
    exact ⟨hroom, .refl⟩
  · have hadvances := hstep.symm.trans h
    rw [hadvances] at hnext
    exact ⟨hnext, .single hadvances⟩
  · cases hdone.symm.trans h

theorem path_of_steps (hroom : s.cpu.overfull = false)
    (h : ReflTransGen (fun t t' => t.advance = .next t') s s') :
    s'.cpu.overfull = false ∧ ReflTransGen Advances s s' := by
  induction h with
  | refl => exact ⟨hroom, .refl⟩
  | tail _ hstep ih =>
    obtain ⟨hroom', hpath⟩ := path_of_advance ih.1 hstep
    exact ⟨hroom', ih.2.trans hpath⟩

/-- A run ends with what its last step gives, or because the code has become too long. -/
theorem Halts.cases (h : s.Halts answer) (hroom : s.cpu.overfull = false) :
    answer.2.store.endless = false ∧
      (answer.2.overfull = false ∧ s.Ends answer ∨
        answer.2.overfull = true ∧
          answer.1 = .error (.nativeCode answer.2.store.code.size) ∧
            ∃ s', ReflTransGen Advances s s' ∧ s'.cpu.overfull = false ∧
              s'.step.cpu = answer.2) := by
  obtain ⟨s', hsteps, hdone⟩ := h
  obtain ⟨hroom', hpath⟩ := path_of_steps hroom hsteps
  rcases s'.advance_cases with ⟨-, hsame⟩ | ⟨hendless, ⟨hlast, hstep⟩ | ⟨hfull, hlast⟩⟩
  · cases hsame.symm.trans hdone
  · have hend := hstep.symm.trans hdone
    rw [hend] at hendless hlast
    exact ⟨hendless, .inl ⟨hlast, s', hpath, hend⟩⟩
  · obtain ⟨hresult, hcpu⟩ := Step.done.inj (hlast.symm.trans hdone)
    rw [hcpu] at hendless hfull hresult
    exact ⟨hendless, .inr ⟨hfull, hresult.symm, s', hpath, hroom', hcpu⟩⟩

theorem advances_of_ends {last : Session} (hsteps : ReflTransGen Advances s last)
    (hdone : last.step = .done answer.1 answer.2) (h : ReflTransGen Advances s s') :
    ReflTransGen Advances s' last := by
  have hunique : Relator.RightUnique Advances := fun _ _ _ hb hc =>
    Step.next.inj (hb.symm.trans hc)
  rcases hsteps.total_of_right_unique hunique h with hlast | hrest
  · cases hlast.cases_head with
    | inl heq => exact heq ▸ .refl
    | inr hmore =>
      obtain ⟨next, hstep, -⟩ := hmore
      exact nomatch hdone.symm.trans hstep
  · exact hrest

theorem moments_of_advances (allowed : Operation → Prop) (h : ReflTransGen Advances s s') :
    ReflTransGen (Moment.Next allowed) (.running s) (.running s') := by
  induction h with
  | refl => exact .refl
  | @tail t t' _ hstep ih =>
    have hnext : Moment.Next allowed (.running t) t.step.moment := .step t
    rw [hstep] at hnext
    exact ih.tail hnext

end Session

namespace Step

def after : Nat → Step → Step
  | 0, step => step
  | count + 1, .next session => after count session.advance
  | _ + 1, .done result cpu => .done result cpu

theorem after_done (count : Nat) (result : Except CpuError Unit) (cpu : Cpu) :
    after count (.done result cpu) = .done result cpu := by
  cases count <;> rfl

theorem moments_advance (allowed : Operation → Prop) (hroom : s.cpu.overfull = false) :
    ReflTransGen (Moment.Next allowed) (.running s) s.advance.moment := by
  rcases s.advance_cases with ⟨-, h⟩ | ⟨-, ⟨-, h⟩ | ⟨hfull, h⟩⟩
  · rw [h]
    exact .refl
  · rw [h]
    exact .single (.step s)
  · rw [h]
    exact .single (.overfull s hroom hfull)

theorem moments_after (allowed : Operation → Prop) (count : Nat) {r : Step}
    (hroom : ∀ s, r = .next s → s.cpu.overfull = false) :
    ReflTransGen (Moment.Next allowed) r.moment (r.after count).moment := by
  induction count generalizing r with
  | zero => exact .refl
  | succ count ih =>
    cases r with
    | next s =>
      have hs := hroom s rfl
      exact (moments_advance allowed hs).trans
        (ih fun s' hs' => (Session.path_of_advance hs hs').1)
    | done => exact .refl

theorem path_of_after {r : Session} (hroom : r.cpu.overfull = false)
    (h : after count (.next r) = .next s) : ReflTransGen Session.Advances r s := by
  induction count generalizing r with
  | zero =>
    cases h
    exact .refl
  | succ count ih =>
    change after count r.advance = .next s at h
    cases hstep : r.advance with
    | done result cpu =>
      rw [hstep, after_done] at h
      cases h
    | next r' =>
      rw [hstep] at h
      obtain ⟨hroom', hpath⟩ := Session.path_of_advance hroom hstep
      exact hpath.trans (ih hroom' h)

/-- A step comes to a session that is as it should be. -/
def ComesTo (P : Session → Prop) : Step → Prop
  | .next session => P session
  | .done _ _ => False

instance {P : Session → Prop} [DecidablePred P] : DecidablePred (ComesTo P)
  | .next session => inferInstanceAs (Decidable (P session))
  | .done _ _ => .isFalse id

theorem ComesTo.session {P : Session → Prop} {r : Step} (h : r.ComesTo P) :
    ∃ s, r = .next s ∧ P s := by
  cases r with
  | next s => exact ⟨s, rfl, h⟩
  | done => exact absurd h id

end Step

namespace Cpu

/-- A run to `target` ends with an answer. -/
def RunsTo (cpu : Cpu) (target : UInt32) (answer : Except CpuError Unit × Cpu) : Prop :=
  match cpu.begin target with
  | .next session => session.Halts answer
  | .done result last => last.store.endless = false ∧ answer = (result, last)

theorem begin_cpu (cpu : Cpu) (target : UInt32) :
    (cpu.begin target).cpu = (cpu.aim target).enter.2 ∨
      (cpu.begin target).cpu = (cpu.aim target).enter.2.updateLimit := by
  unfold begin
  split
  · rename_i heq
    rw [heq]
    exact .inl rfl
  · rename_i heq
    rw [heq]
    exact .inl rfl
  · rename_i heq
    rw [heq, Step.translated_cpu]
    exact .inr rfl

theorem begin_room {cpu : Cpu} (h : cpu.begin target = .next s) : s.cpu.overfull = false := by
  unfold begin at h
  split at h
  · cases h
  · cases h
  · unfold Step.translated at h
    split at h
    · cases h
    · rename_i hroom
      cases h
      exact Bool.eq_false_iff.mpr hroom

theorem begin_of_locate {cpu : Cpu} {n : Host.CodePtr} {store : CodeStore}
    (hlocate : cpu.store.locate cpu.view cpu.pc = (n, store)) (heven : cpu.pc &&& 1 = 0)
    (hstopped : cpu.stopped = false) (target : UInt32) :
    cpu.begin target = (Step.next (Session.start { cpu.aim target with store := store }.updateLimit
      n)).translated := by
  have hresolve : (cpu.aim target).resolve cpu.pc none =
      (.ok n, { cpu.aim target with store := store }) := by
    have hview : (cpu.aim target).view = cpu.view := rfl
    simp only [Cpu.resolve, if_pos heven, Cpu.locate, hview, hlocate]
  unfold Cpu.begin Cpu.enter
  rw [if_neg (ne_true_of_eq_false hstopped), hresolve]

theorem moments_of_after {cpu : Cpu} (h : Step.after count (cpu.begin target) = .next s)
    (allowed : Operation → Prop) :
    ReflTransGen (Moment.Next allowed) (.idle cpu) (.running s) := by
  have hafter := Step.moments_after allowed count (r := cpu.begin target) fun _ => begin_room
  rw [h] at hafter
  exact .head (.begin cpu target) hafter

theorem RunsTo.runUntil_eq {cpu : Cpu} (h : cpu.RunsTo target answer) :
    cpu.runUntil target = some answer := by
  unfold RunsTo at h
  unfold runUntil
  cases hstep : cpu.begin target with
  | next s =>
    rw [hstep] at h
    exact h.run_eq
  | done result last =>
    rw [hstep] at h
    obtain ⟨hends, rfl⟩ := h
    exact if_neg (ne_true_of_eq_false hends)

theorem RunsTo.moments_from {cpu : Cpu} (h : cpu.RunsTo target answer)
    (hbegin : cpu.begin target = .next s) (allowed : Operation → Prop) :
    ReflTransGen (Moment.Next allowed) (.running s) (.idle answer.2) := by
  unfold RunsTo at h
  rw [hbegin] at h
  obtain ⟨-, ⟨-, s', hpath, hdone⟩ | ⟨hfull, -, s', hpath, hroom, hcpu⟩⟩ :=
    h.cases (begin_room hbegin)
  · have hnext : Moment.Next allowed (.running s') s'.step.moment := .step s'
    rw [hdone] at hnext
    exact (Session.moments_of_advances allowed hpath).tail hnext
  · rw [← hcpu] at hfull ⊢
    exact (Session.moments_of_advances allowed hpath).tail (.overfull s' hroom hfull)

theorem RunsTo.moments {cpu : Cpu} (h : cpu.RunsTo target answer) (allowed : Operation → Prop) :
    ReflTransGen (Moment.Next allowed) (.idle cpu) (.idle answer.2) := by
  have hbegin : Moment.Next allowed (.idle cpu) (cpu.begin target).moment := .begin cpu target
  cases hstep : cpu.begin target with
  | next s =>
    rw [hstep] at hbegin
    exact .head hbegin (h.moments_from hstep allowed)
  | done result last =>
    unfold RunsTo at h
    rw [hstep] at h hbegin
    obtain ⟨-, rfl⟩ := h
    exact .single hbegin

end Cpu

end Dynarec68k
