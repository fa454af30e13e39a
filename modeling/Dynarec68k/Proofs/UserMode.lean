import Dynarec68k.Proofs.OneProcessor
import Dynarec68k.Proofs.SampleRuns

namespace Dynarec68k

open Host Relation Moment

/-- The status byte and the inactive stack pointer are what user mode keeps. -/
theorem RegisterFile.eq_of_kept {file other : RegisterFile}
    (h : ∀ k, RegisterFile.Kept true k → file.byteAt k = other.byteAt k) :
    file.status = other.status ∧ file.a 8 = other.a 8 := by
  refine ⟨h _ (.inr rfl), RegisterFile.part_congr (by decide) fun i hi => h _ (.inl ⟨rfl, ?_, ?_⟩)⟩
  · exact Nat.le_add_right _ _
  · exact Nat.add_lt_add_left hi _

theorem Session.guest_serve (s : Session) (service : Service) :
    (s.serve service).moment.guest.registers = (s.served service).cpu.registers := by
  have hloaded := (s.served service).cpu.spill_loadHost (s.answer service)
  rw [s.serve_eq]
  cases (s.served service).outcome with
  | proceed => exact hloaded
  | jump native => exact hloaded
  | leave => rfl
  | fail e => rfl
  | resume offset =>
    unfold Session.follow
    dsimp only
    split
    · exact hloaded
    · rfl

theorem Session.counters_serve (s : Session) (service : Service) :
    (s.serve service).cpu.counters = (s.served service).cpu.counters := by
  rw [s.serve_eq]
  cases (s.served service).outcome with
  | resume offset =>
    unfold Session.follow
    dsimp only
    split <;> rfl
  | _ => rfl

theorem Cpu.confined_begin (cpu : Cpu) (target : UInt32) :
    Cpu.Confined cpu (cpu.begin target).moment.guest := by
  have henter := Cpu.attentive_confined.enter (cpu.aim target)
  unfold Cpu.begin
  generalize (cpu.aim target).enter = r at henter ⊢
  have hchange : Cpu.Confined cpu r.2 := ⟨henter.counted, henter.kept, henter.supervisor⟩
  obtain ⟨_ | _ | entry, entered⟩ := r
  · exact hchange
  · exact hchange
  · dsimp only
    rcases (Step.next (Session.start entered.updateLimit entry)).translated_cases with heq | heq
    · rw [heq]
      exact hchange.trans (.of_eq (entered.updateLimit.spill_loadHost State.initial) rfl)
    · rw [heq]
      exact hchange.trans (.of_eq rfl rfl)

namespace Coupling

variable {config : Config} {map : MemoryMap} {allowed : Operation → Prop}
  {U : Upkeep config map allowed} {P : Pair → Prop} {w : Watch} {m m' : Moment}

theorem Tracks.sees (h : (alone U).Tracks w P m) : w.Sees m.cpu m.guest.registers := by
  cases m with
  | idle cpu => exact h.2
  | running s =>
    exact h.1.sees.change (Nat.le_refl _) fun _ _ k hk =>
      s.cpu.config.registerAssignment.spill_kept s.machine hk

theorem Tracks.trap (h : (alone U).Tracks w P m) (hon : w.on m.cpu = true)
    (hnext : Next (fun _ => False) m m') :
    m'.cpu.counters.exceptions = m.cpu.counters.exceptions ∨
      m.cpu.counters.exceptions < m'.cpu.counters.exceptions ∧
        m'.guest.registers.supervisor = true := by
  have hcases {x x' : Cpu} (hconfined : Cpu.Confined x x') :
      x'.counters.exceptions = x.counters.exceptions ∨
        x.counters.exceptions < x'.counters.exceptions ∧ x'.registers.supervisor = true := by
    rcases Nat.lt_or_eq_of_le hconfined.counted with hlt | heq
    · exact .inr ⟨hlt, hconfined.supervisor hlt⟩
    · exact .inl heq.symm
  have hstepped (s : Session) (h : (alone U).Tracks w P (.running s)) (hon : w.on s.cpu = true) :
      s.step.moment.cpu.counters.exceptions = s.cpu.counters.exceptions ∨
        s.cpu.counters.exceptions < s.step.moment.cpu.counters.exceptions ∧
          s.step.moment.guest.registers.supervisor = true := by
    obtain ⟨-, T, hleads⟩ := h
    cases (hleads.step (.inl oneSided_alone)).plain with
    | moves hstep _ =>
      rw [hstep]
      exact .inl rfl
    | turns hstep =>
      rw [hstep]
      exact .inl rfl
    | @serves service hstep huser =>
      have hconfined := s.asked.confined_serve s.machine.state (huser hon)
      rw [hstep, Step.moment_cpu, s.counters_serve, s.guest_serve]
      exact hcases (x := s.asked) hconfined
  cases hnext with
  | operate cpu operation hoperation => exact hoperation.elim
  | begin cpu target =>
    rw [← guest_counters]
    exact hcases (cpu.confined_begin target)
  | step s => exact hstepped s h hon
  | overfull s hroom hfull =>
    have htraps := hstepped s h hon
    rw [Step.moment_cpu] at htraps
    refine htraps.imp_right (And.imp_right fun hsupervisor => ?_)
    rcases Session.step_overfull hroom hfull with ⟨result, c, hstep⟩ | ⟨s', hstep, hasked, -⟩
    · rw [hstep] at hsupervisor ⊢
      exact hsupervisor
    · rw [hstep] at hsupervisor ⊢
      rw [Step.moment, guest, hasked] at hsupervisor
      exact hsupervisor

end Coupling

/-- From an instruction boundary in user mode on, whatever a processor runs, at every moment before
an exception is taken the status byte and the inactive stack pointer are what they were; and the
next thing that happens takes no exception, or enters supervisor mode. -/
theorem user_mode_confined {cpu : Cpu} {config : Config} {memory : MemoryMap}
    (hnew : cpu.IsNew config memory) {allowed : Operation → Prop} {start m : Moment}
    (hreached : ReflTransGen (Next allowed) (.idle cpu) start)
    (hboundary : start.AtInstruction) (huser : start.guest.registers.supervisor = false)
    (hpath : ReflTransGen (Next fun _ => False) start m)
    (hroom : m.cpu.store.code.ops.size < 2 ^ 31)
    (hquiet : m.guest.counters.exceptions = start.guest.counters.exceptions) :
    m.guest.registers.status = start.guest.registers.status ∧
      m.guest.registers.a 8 = start.guest.registers.a 8 ∧
      ∀ m', Next (fun _ => False) m m' →
        m'.guest.counters.exceptions = start.guest.counters.exceptions ∨
          start.guest.counters.exceptions < m'.guest.counters.exceptions ∧
            m'.guest.registers.supervisor = true := by
  have hgrows : Cpu.Grows start.cpu m.cpu := Next.grows hpath
  obtain ⟨P, htracks⟩ := hnew.tracks (.trivial config memory) trivial
    (fun _ _ => trivial) hreached (hgrows.fits hroom) start.guest.registers
  -- from here on what user mode keeps is watched
  let w : Watch := ⟨start.guest.registers, some start.cpu.counters.exceptions, fun _ => huser⟩
  have hstart : (alone (.trivial config memory)).Tracks w P start := by
    refine htracks.rewatch hboundary ⟨fun n hn => ?_, fun _ _ _ => rfl⟩
    exact Nat.le_of_eq (Option.some.inj hn).symm
  obtain ⟨P', -, hm⟩ := hstart.moments (fun _ => False.elim) hpath hroom fun _ _ => False.elim
  simp only [guest_counters] at hquiet ⊢
  have hon : w.on m.cpu = true := decide_eq_true (congrArg some hquiet.symm)
  obtain ⟨hstatus, hstack⟩ := RegisterFile.eq_of_kept (hm.sees.kept hon)
  refine ⟨hstatus, hstack, fun m' hnext => ?_⟩
  rw [← hquiet]
  exact hm.trap hon hnext

/-- A processor in user mode in front of MOVE #$1F,CCR and of MOVE #$2700,SR, which is not allowed
there. -/
def Cpu.confined : Cpu :=
  (fresh .default (.program 0xFFFFFF 0xFFFFFFFF
    ([0x44FC, 0x1F, 0x46FC, 0x2700] ++ List.replicate 12 0x4E71 ++ [0, 0]))).setSr 0

theorem user_mode_confined_privileged :
    ∃ s : Session, s.asked.registers.sr = 0x1F ∧
      s.asked.registers.status = Cpu.confined.registers.status ∧
      s.asked.registers.a 8 = Cpu.confined.registers.a 8 ∧
      s.step.moment.guest.registers.supervisor = true := by
  obtain ⟨s, hafter, hfits, hsr, hquiet, htaken⟩ := Step.ComesTo.session
    (show (Step.after 20 (Cpu.confined.begin 100)).ComesTo fun s =>
      s.cpu.store.code.ops.size < 2 ^ 31 ∧ s.asked.registers.sr = 0x1F ∧
      s.asked.counters.exceptions = Cpu.confined.counters.exceptions ∧
      s.step.moment.guest.counters.exceptions ≠ Cpu.confined.counters.exceptions by decide +kernel)
  have hprepared : ReflTransGen (Next fun _ => True) _ (.idle Cpu.confined) :=
    .single (.operate _ (.setSr 0) True.intro)
  obtain ⟨hstatus, hstack, hnext⟩ := user_mode_confined (Cpu.isNew_program (by decide) rfl) hprepared
    True.intro (Cpu.supervisor_setSr _ 0) (Cpu.moments_of_after hafter _) hfits hquiet
  exact ⟨s, hsr, hstatus, hstack, ((hnext _ (.step s)).resolve_left htaken).2⟩

end Dynarec68k
