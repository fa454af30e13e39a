import Dynarec68k.Proofs.DueChecks
import Dynarec68k.Proofs.InterruptRequests

namespace Dynarec68k

open Host Relation Moment

theorem Operation.latched_apply (cpu : Cpu) (operation : Operation) :
    (operation.apply cpu).counters.interrupts = cpu.counters.interrupts ∧
      ((operation.apply cpu).latched = cpu.latched ∨ (operation.apply cpu).latched = none ∨
        ∃ bytes, operation = .restore bytes) := by
  by_cases hleaves : operation.leavesLines = true
  · have hsame := operation.lines_apply cpu hleaves
    exact ⟨congrArg InterruptLines.accepted hsame, .inl (congrArg InterruptLines.latched hsame)⟩
  cases operation with
  | restore bytes =>
    refine ⟨?_, .inr (.inr ⟨bytes, rfl⟩)⟩
    simp only [apply, Cpu.restore]
    split <;> rfl
  | reset =>
    have hlines := cpu.lines_reset
    exact ⟨congrArg InterruptLines.accepted hlines,
      .inr (.inl (congrArg InterruptLines.latched hlines))⟩
  | setInterrupt | adjustCycles | takeAcknowledged => exact ⟨rfl, .inl rfl⟩
  | _ => exact absurd rfl hleaves

namespace Moment

variable {allowed : Operation → Prop} {level : UInt8} {start m m' : Moment}

/-- A level becomes latched: it is looked at and the mask lets it through, or a snapshot is
loaded. -/
structure Latches (allowed : Operation → Prop) (level : UInt8) (m m' : Moment) : Prop where
  next : Next allowed m m'
  latched : m'.cpu.latched = some level
  admitted : m.Looks ∧ m.cpu.latched = none ∧ InterruptLines.Admits m.mask level ∨
    ∃ cpu bytes, allowed (.restore bytes) ∧ m = .idle cpu ∧
      m' = .idle ((Operation.restore bytes).apply cpu)

/-- A level stays latched, and nothing is accepted. -/
structure Keeps (allowed : Operation → Prop) (level : UInt8) (m m' : Moment) : Prop where
  next : Next allowed m m'
  latched : m.cpu.latched = some level ∧ m'.cpu.latched = some level
  accepted : m'.cpu.counters.interrupts = m.cpu.counters.interrupts

theorem Next.latched (h : Next allowed m m') :
    (m.Looks ∧ ∃ level, m'.cpu.lines = m.cpu.lines.accept level ∧
      (m.cpu.latched = some level ∨
        m.cpu.latched = none ∧ InterruptLines.Admits m.mask level)) ∨
    m'.cpu.counters.interrupts = m.cpu.counters.interrupts ∧
      ∀ level, m'.cpu.latched = some level →
        m.cpu.latched = some level ∨ Latches allowed level m m' := by
  rcases h.change with ⟨cpu, operation, hoperation, rfl, rfl⟩ | hsame | ⟨hlooks, hchange⟩
  · obtain ⟨haccepted, hlatched⟩ := operation.latched_apply cpu
    refine .inr ⟨haccepted, fun level hlevel => ?_⟩
    rcases hlatched with hsame | hnone | ⟨bytes, rfl⟩
    · exact .inl (hsame.symm.trans hlevel)
    · exact absurd (hnone.symm.trans hlevel) (Option.some_ne_none level).symm
    · exact .inr ⟨.operate cpu _ hoperation, hlevel, .inr ⟨cpu, bytes, hoperation, rfl, rfl⟩⟩
  · exact .inr ⟨congrArg InterruptLines.accepted hsame, fun level hlevel =>
      .inl ((congrArg InterruptLines.latched hsame).symm.trans hlevel)⟩
  generalize hlines : m'.cpu.lines = lines at hchange
  have haccepted : m'.cpu.counters.interrupts = lines.accepted :=
    congrArg InterruptLines.accepted hlines
  have hlatched : m'.cpu.latched = lines.latched := congrArg InterruptLines.latched hlines
  rw [haccepted]
  cases hchange with
  | keep => exact .inr ⟨rfl, fun level hlevel => .inl (hlatched.symm.trans hlevel)⟩
  | latch hnone hadmits =>
    refine .inr ⟨rfl, fun level hlevel => .inr ⟨h, hlevel, .inl ⟨hlooks, hnone, ?_⟩⟩⟩
    rw [← Option.some.inj (hlatched.symm.trans hlevel)]
    exact hadmits
  | forget =>
    exact .inr ⟨rfl, fun level hlevel =>
      absurd (hlatched.symm.trans hlevel) (Option.some_ne_none level).symm⟩
  | acceptLatched hsome => exact .inl ⟨hlooks, _, rfl, .inl hsome⟩
  | acceptRequest hnone hadmits => exact .inl ⟨hlooks, _, rfl, .inr ⟨hnone, hadmits⟩⟩

theorem Latches.held {m₁ m₂ : Moment} (h : Latches allowed level m₁ m₂)
    (hkeeps : ReflTransGen (Keeps allowed level) m₂ m) : m.cpu.latched = some level := by
  cases hkeeps with
  | refl => exact h.latched
  | tail _ hlast => exact hlast.latched.2

/-- An interrupt that is latched was latched at some moment, and has been since. -/
theorem latched_since (hstart : start.cpu.latched = none)
    (hpath : ReflTransGen (Next allowed) start m) (hlatched : m.cpu.latched = some level) :
    ∃ m₁ m₂, ReflTransGen (Next allowed) start m₁ ∧ Latches allowed level m₁ m₂ ∧
      ReflTransGen (Keeps allowed level) m₂ m := by
  induction hpath with
  | refl => exact absurd (hstart.symm.trans hlatched) (Option.some_ne_none level).symm
  | @tail n n' hbefore hnext ih =>
    rcases hnext.latched with ⟨-, taken, hlines, -⟩ | ⟨haccepted, hsince⟩
    · have hnone : n'.cpu.latched = none := congrArg InterruptLines.latched hlines
      exact absurd (hnone.symm.trans hlatched) (Option.some_ne_none level).symm
    · rcases hsince level hlatched with hheld | hlatches
      · obtain ⟨m₁, m₂, hreached, hlatches, hkeeps⟩ := ih hheld
        exact ⟨m₁, m₂, hreached, hlatches, hkeeps.tail ⟨hnext, ⟨hheld, hlatched⟩, haccepted⟩⟩
      · exact ⟨n, n', hbefore, hlatches, .refl⟩

end Moment

theorem Cpu.synchronize_away {cpu : Cpu} {level : UInt8} (h : cpu.latched = some level)
    (address : UInt32) : (cpu.synchronize address).1 ≠ .proceed := by
  unfold synchronize
  split
  · exact nofun
  · split
    · exact Outcome.ofEntry_ne_proceed _
    · rw [h]
      exact Outcome.ofEntry_ne_proceed _

theorem Cpu.passBreakpoint_latched {cpu : Cpu} {level : UInt8} (h : cpu.latched = some level)
    (hdue : cpu.limit ≤ cpu.cycle) (address : UInt32) :
    (cpu.passBreakpoint address).1 = (cpu.synchronize address).1 := by
  have haway := synchronize_away h address
  rw [passBreakpoint, if_pos hdue]
  split
  · rename_i heq
    rw [heq] at haway
    exact absurd rfl haway
  · rename_i heq
    rw [heq]

namespace Session

/-- Before the body of any instruction the session comes to a gate that leaves the run or goes to
the handler of an exception. On the way there nothing but compiled code changes. -/
inductive Diverted : Session → Prop where
  | looks {s : Session} {service : Service} {c : Cpu} {x : UInt32} (h : s.step = s.serve service)
      (hlatched : c.latched = s.asked.latched)
      (houtcome : (s.served service).outcome = (c.synchronize x).1)
      (haway : (c.synchronize x).1 ≠ .proceed) : Diverted s
  | stops {s : Session} {c : Cpu} (hstep : s.step = .done (.ok ()) c) : Diverted s
  | faults {s : Session} {service : Service} {fault : AddressFault} (h : s.step = s.serve service)
      (hserved : s.served service = .ofEntry (s.asked.takeAddressError fault)) : Diverted s
  | later {s t : Session} (h : s.step = .next t)
      (hsame : ∃ store, t.asked = { s.asked with store := store }) (ht : Diverted t) : Diverted s

theorem Attends.diverted {s : Session} {level : UInt8} (h : s.Attends)
    (hlatched : s.asked.latched = some level) : s.Diverted := by
  induction h with
  | looks h => exact .looks h rfl rfl (Cpu.synchronize_away hlatched _)
  | stops _ hstep => exact .stops hstep
  | passes h hserved hsame hdue =>
    rw [← hsame] at hlatched
    exact .looks h hsame ((congrArg Cpu.Served.outcome hserved).trans
      (Cpu.passBreakpoint_latched hlatched hdue _)) (Cpu.synchronize_away hlatched _)
  | faults h hserved => exact .faults h hserved
  | later h hsame _ ih =>
    obtain ⟨store, heq⟩ := hsame
    refine .later h ⟨store, heq⟩ (ih ?_)
    rw [heq]
    exact hlatched

end Session

/-- A processor accepts interrupts where it looks at them. Whenever it does, the mask lets the
interrupt through then; or it was latched before, where it was looked at and the mask let it through
unless it came with a snapshot, and has been latched since. While it is latched no other instruction
is begun: where the code of one begins, the run is left or a handler is gone to first. -/
theorem accepted_interrupt_admitted {cpu : Cpu} {config : Config} {memory : MemoryMap}
    (hnew : cpu.IsNew config memory) {allowed : Operation → Prop} {m m' : Moment}
    (hpath : ReflTransGen (Next allowed) (.idle cpu) m) (hnext : Next allowed m m')
    (haccepted : m'.cpu.counters.interrupts ≠ m.cpu.counters.interrupts) :
    m.Looks ∧ ∃ level, m'.cpu.lines = m.cpu.lines.accept level ∧
      (m.cpu.latched = none ∧ InterruptLines.Admits m.mask level ∨
        m.cpu.latched = some level ∧ ∃ m₁ m₂,
          ReflTransGen (Next allowed) (.idle cpu) m₁ ∧ Latches allowed level m₁ m₂ ∧
            ReflTransGen (Keeps allowed level) m₂ m ∧
            ∀ s, ReflTransGen (Keeps allowed level) m₂ (.running s) → s.AtBoundary →
              (∀ t, ReflTransGen Session.Advances s t → t.cpu.Fits) → s.Diverted) := by
  have hnone : (idle cpu).cpu.latched = none := hnew.eq_fresh.2 ▸ rfl
  rcases hnext.latched with ⟨hlooks, level, hlines, hlatched | hadmitted⟩ | ⟨hsame, -⟩
  · obtain ⟨m₁, m₂, hreached, hlatches, hkeeps⟩ := latched_since hnone hpath hlatched
    refine ⟨hlooks, level, hlines, .inr ⟨hlatched, m₁, m₂, hreached, hlatches, hkeeps, ?_⟩⟩
    intro s hs hboundary hfits
    have hheld : s.asked.latched = some level := hlatches.held hs
    have hdue : s.asked.IsDue :=
      .inr (.inr (.inl (Option.isSome_iff_exists.mpr ⟨level, hheld⟩)))
    have hsince : ReflTransGen (Next allowed) m₂ (.running s) :=
      hs.lift id fun _ _ => Keeps.next
    exact (hnew.attends ((hreached.tail hlatches.next).trans hsince) hfits hboundary hdue).diverted
      hheld
  · exact ⟨hlooks, level, hlines, .inl hadmitted⟩
  · exact absurd hsame haccepted

/-- In front of ORI #$700,SR, with level 3 requested and nothing masked. -/
def Cpu.requested : Cpu :=
  ((fresh .default (.program 0xFFFFFF 0xFFFFFFFF [0x007C, 0x0700])).setSr 0x2000).setInterrupt 3 0

/-- The level is latched in front of the instruction that masks it, and accepted all the same. -/
theorem Moment.accepts_masked (allowed : Operation → Prop)
    (hallowed : ∀ operation, (∀ bytes, operation ≠ .restore bytes) → allowed operation) :
    ∃ cpu m m', cpu.IsNew .default (.program 0xFFFFFF 0xFFFFFFFF [0x007C, 0x0700]) ∧
      ReflTransGen (Next allowed) (.idle cpu) m ∧ Next allowed m m' ∧ m.mask = 7 ∧
      m'.cpu.lines = m.cpu.lines.accept 3 := by
  obtain ⟨t, hlooks, hmask, hlines⟩ := Step.ComesTo.session
    (show (Step.after 27 (Cpu.requested.begin 100)).ComesTo fun t =>
      t.mask = 7 ∧ t.step.moment.cpu.lines = t.cpu.lines.accept 3 by decide +kernel)
  refine ⟨_, .running t, t.step.moment, Cpu.isNew_program (by decide) rfl, ?_, .step t, hmask,
    hlines⟩
  exact .head (.operate _ (.setSr 0x2000) (hallowed _ nofun))
    (.head (.operate _ (.setInterrupt 3 0) (hallowed _ nofun)) (Cpu.moments_of_after hlooks allowed))

/-- An interrupt may be accepted that the mask does not let through any more. -/
theorem mask_ignored_at_acceptance :
    ¬∀ (cpu : Cpu) (config : Config) (memory : MemoryMap) (m m' : Moment) (level : UInt8),
      cpu.IsNew config memory →
      ReflTransGen (Next fun operation => ∀ bytes, operation ≠ .restore bytes) (.idle cpu) m →
      Next (fun operation => ∀ bytes, operation ≠ .restore bytes) m m' →
      m'.cpu.lines = m.cpu.lines.accept level → 1 ≤ level ∧ level ≤ 6 → m.mask < level := by
  intro hclaim
  obtain ⟨cpu, m, m', hnew, hreached, hnext, hmask, hlines⟩ :=
    accepts_masked _ fun _ h => h
  have hbelow := hclaim cpu _ _ m m' 3 hnew hreached hnext hlines (by decide)
  rw [hmask] at hbelow
  exact absurd hbelow (by decide)

theorem accepted_interrupt_admitted_late :
    ∃ m₁ m₂ m, Latches (fun operation => ∀ bytes, operation ≠ .restore bytes) 3 m₁ m₂ ∧
      m₁.Looks ∧ m₁.mask < 3 ∧ ReflTransGen
        (Keeps (fun operation => ∀ bytes, operation ≠ .restore bytes) 3) m₂ m ∧
      m.Looks ∧ m.mask = 7 := by
  obtain ⟨cpu, m, m', hnew, hreached, hnext, hmask, hlines⟩ :=
    accepts_masked (fun operation => ∀ bytes, operation ≠ .restore bytes) fun _ h => h
  have haccepted : m'.cpu.counters.interrupts = m.cpu.counters.interrupts + 1 :=
    congrArg InterruptLines.accepted hlines
  obtain ⟨hlooks, level, hlines', hcases⟩ := accepted_interrupt_admitted hnew hreached hnext
    (haccepted ▸ Nat.succ_ne_self _)
  obtain rfl : level = 3 :=
    Option.some.inj (congrArg InterruptLines.acknowledged (hlines'.symm.trans hlines))
  rcases hcases with ⟨-, hadmits⟩ | ⟨-, m₁, m₂, -, hlatches, hkeeps, -⟩
  · rw [hmask] at hadmits
    exact absurd hadmits (show ¬((7 : UInt8) < 3 ∨ (3 : UInt8) = 7) by decide)
  · rcases hlatches.admitted with ⟨hlooks₁, -, hbelow | heq⟩ | ⟨-, bytes, hrestore, -⟩
    · exact ⟨m₁, m₂, m, hlatches, hlooks₁, hbelow, hkeeps, hlooks, hmask⟩
    · exact absurd heq (by decide)
    · exact absurd rfl (hrestore bytes)

end Dynarec68k
