import Dynarec68k.Proofs.HeadOutcomes
import Dynarec68k.Proofs.InstructionSteps

/-!
Every run ends, and soon after the cycle it is to end at. From the head of a unit a run comes to the
head of another one some cycles later, or ends; and heads that are reached after the end of the run
are never passed. So guest time is the measure: `run_ends_at_boundary`.
-/

namespace Dynarec68k

open Host Relation Cpu Moment

variable {config : Config} {c cpu : Cpu} {map memory : MemoryMap} {P : Pair → Prop}
  {target : UInt32}

namespace Cpu

theorem serve_locate_cpu (cpu : Cpu) (host : State) :
    (cpu.serve host .locate).cpu =
      (cpu.resolve (host.reg Role.scratch1) (cpu.caller? host)).2 := by
  simp only [serve]
  split
  · rename_i heq
    rw [heq]
    rfl
  · rename_i heq
    rw [heq]

end Cpu

theorem Cpu.roused_cycle {level : UInt8} (h : c.wakeLevel? = some level)
    (hdue : c.latched.isSome = true → c.request.cycle ≤ c.cycle) :
    c.cycle.toNat ≤ c.roused.cycle.toNat ∧
      c.roused.cycle.toNat ≤ max c.cycle.toNat c.target.toNat := by
  have hcycle : c.roused.cycle =
      if c.request.cycle = 0xFFFFFFFF then c.cycle else max c.cycle c.request.cycle := rfl
  have hrequest : c.request.cycle.toNat ≤ max c.cycle.toNat c.target.toNat := by
    unfold wakeLevel? at h
    cases hlatched : c.latched with
    | some latched =>
      have hle := UInt32.le_iff_toNat_le.mp (hdue (by rw [hlatched]; rfl))
      omega
    | none =>
      rw [hlatched] at h
      dsimp only at h
      split at h
      · rename_i hlt
        have hlt := UInt32.lt_iff_toNat_lt.mp hlt
        omega
      · cases h
  rw [hcycle]
  split
  · omega
  · rw [UInt32.toNat_max]
    omega

namespace Cpu.Underway

variable
  {low : Nat}

theorem wake (h : c.Underway config map target P) (hfits : c.wake.2.Fits)
    (hroom : max c.cycle.toNat target.toNat + 50 * config.clockDivider.toNat < 2 ^ 32)
    (hdue : c.latched.isSome = true → c.request.cycle ≤ c.cycle) :
    c.wake = (.ok none, { c with latched := none, cycle := max c.cycle target }) ∨
      (∃ e, c.wake.1 = .error e) ∨
      ∃ (P' : Pair → Prop) (q : Pair), P' q ∧ c.wake.1 = .ok (some q.left.toUInt32) ∧
        c.wake.2.Underway config map target P' ∧ c.wake.2.latched = none ∧
        c.cycle.toNat ≤ c.wake.2.cycle.toNat ∧
        c.wake.2.cycle.toNat ≤
          max c.cycle.toNat target.toNat + 50 * config.clockDivider.toNat := by
  cases hlevel : c.wakeLevel? with
  | none =>
    left
    rw [Cpu.wake, hlevel, h.target]
  | some level =>
    right
    have hroused : c.roused.Underway config map target P := h.change (.refl _) rfl rfl
      fun hsome => by cases hsome
    obtain ⟨hleast, hmost⟩ := roused_cycle hlevel hdue
    rw [h.target] at hmost
    obtain ⟨clocks, -, hclocks, hlater⟩ := c.schedule_wake hlevel
    have hspent : clocks * config.clockDivider.toNat ≤ 50 * config.clockDivider.toNat :=
      Nat.mul_le_mul_right _ hclocks
    have hcycle := hroused.toNat_later (by omega) (by omega) hlater
    have hlatched : c.wake.2.latched = none := by
      rw [wake_some hlevel]
      exact congrArg InterruptLines.latched (lines_takeInterrupt _ level c.pc rfl)
    rw [wake_some hlevel] at hfits hlater hcycle hlatched ⊢
    obtain ⟨P', -, htwins, ⟨q, hq, hleft, -⟩ | ⟨e, -, hfail, -⟩⟩ :=
      hroused.twins.takeInterrupt level c.pc (fit_alone hfits)
    · refine .inr ⟨P', q, hq, ?_, ?_, hlatched, by omega, by omega⟩
      · rw [hleft]
        rfl
      · refine hroused.of_twins htwins (congrArg Schedule.target hlater) fun hsome _ => ?_
        rw [hlatched] at hsome
        cases hsome
    · refine .inl ⟨e, ?_⟩
      rw [hfail]
      rfl

end Cpu.Underway

namespace Cpu.Midway

variable
  {low : Nat} (h : c.Midway config map target P) {service : Service} (host : State)
include h

theorem settles_stop (sr : UInt16) (next : UInt32) (hfits : (c.stop sr next).2.Fits)
    (hlow : low < c.cycle.toNat) : Settles config map target low (c.stop sr next) := by
  have hhalted : (c.halted sr next).Underway config map target P :=
    h.change (.refl _) rfl rfl h.punctual
  have hcycle : (c.halted sr next).cycle = c.cycle := rfl
  have hroom := h.room
  have hnow := h.now
  have hpositive := h.ticks.positive
  rw [stop_eq] at hfits ⊢
  have hwake := hhalted.wake hfits (by rw [hcycle]; omega) h.due
  rw [hcycle] at hwake
  rcases hwake with heq | ⟨e, hfail⟩ | ⟨P', q, hq, hjump, hunderway, -, hleast, hmost⟩
  · rw [heq]
    have hmax := UInt32.toNat_max c.cycle target
    refine .leaves rfl ?_ ?_
    · change target ≤ max c.cycle target
      rw [UInt32.le_iff_toNat_le]
      omega
    · change (max c.cycle target).toNat ≤ _
      omega
  · exact .fails (congrArg Outcome.ofWake hfail)
  · exact .jumps hq (congrArg Outcome.ofWake hjump) hunderway (Nat.lt_of_lt_of_le hlow hleast)
      (Nat.le_trans hmost (by omega))

theorem serve_back (hservice : service.GivesBack)
    (houtcome : (c.serve host service).outcome ≠ .proceed)
    (hfits : (c.serve host service).cpu.Fits) (hlow : low ≤ c.cycle.toNat) :
    Settles config map target low
      ((c.serve host service).outcome, (c.serve host service).cpu) := by
  rcases c.serve_times hservice host with
    hreturns | ⟨⟨entry, hentry⟩, clocks, hpositive, hmost, hlater⟩
  · exact absurd hreturns.1 houtcome
  rcases h.twins.serve_back hservice (m := host) ⟨fun _ => rfl, rfl, rfl, rfl⟩
    (fun _ => fit_alone hfits) with ⟨-, hproceed, -⟩ | hdiverts
  · exact absurd hproceed houtcome
  · have hspent : 0 < clocks * config.clockDivider.toNat := Nat.mul_pos hpositive h.ticks.positive
    exact h.settles hdiverts (hentry ▸ Outcome.ofEntry_ne_leave entry) hmost hlater
      (.inr (lasting_lines.serve_back host hservice fun _ _ => rfl)) (by omega)

theorem serve_away (hservice : service.goesAway = true) (hfits : (c.serve host service).cpu.Fits)
    (hlow : low ≤ c.cycle.toNat) (hpaid : service.delays = true ∨ low < c.cycle.toNat) :
    Settles config map target low
      ((c.serve host service).outcome, (c.serve host service).cpu) := by
  have hdiverts := h.twins.serve_away hservice (m := host) ⟨fun _ => rfl, rfl, rfl, rfl⟩
    (fit_alone hfits)
  cases service with
  | outOfBounds => exact .fails rfl
  | exception =>
    exact h.lands (h.twins.takeException _ _ (fit_alone hfits)) (c.schedule_takeException _ _)
      (.inr (lasting_lines.exception c _ _)) hlow
  | fetchError =>
    have hpositive := h.ticks.positive
    exact h.settles hdiverts (Outcome.ofEntry_ne_leave _) (Nat.le_refl 50)
      (c.schedule_takeAddressError _) (.inr (lasting_lines.addressError c _)) (by omega)
  | returnFromException =>
    have hlow := hpaid.resolve_left Bool.false_ne_true
    obtain ⟨clocks, hmost, hlater⟩ := c.schedule_returnFromException (c.caller? host)
    exact h.settles hdiverts (Outcome.ofEntry_ne_leave _) hmost hlater
      (.inr (c.lines_returnFromException _)) (by omega)
  | stop => exact h.settles_stop _ _ hfits (hpaid.resolve_left Bool.false_ne_true)
  | _ => cases hservice

end Cpu.Midway

namespace Session

section

variable {P' : Pair → Prop} {p : Pair}
  {low spent i : Nat} {s t : Session} {service : Service}

/-- What is so inside the body of a unit that was entered before the end of the run. The clock has
not wrapped, and what is latched is still due. -/
theorem Amid.midway (hs : s.InUnit config map target P p 4) (hearly : s.asked.cycle < target)
    (h : t.Amid hs.underway.upkeep s P' p spent i)
    (hspent : spent ≤ 256 * config.clockDivider.toNat) :
    t.asked.Midway config map target P' ∧
      t.asked.cycle.toNat = s.asked.cycle.toNat + spent := by
  have hroom := hs.underway.room
  have hlt := UInt32.lt_iff_toNat_lt.mp hearly
  have hsmall : spent < UInt32.size := by
    change spent < 2 ^ 32
    omega
  have hcycle : t.asked.cycle.toNat = s.asked.cycle.toNat + spent := by
    rw [h.clock, UInt32.toNat_add, UInt32.toNat_ofNat_of_lt' hsmall, Nat.mod_eq_of_lt (by omega)]
  have hsame {α : Type} (f : Cpu → α) := congrArg f h.outer
  have hlatched : t.asked.latched = s.asked.latched := hsame latched
  have hrequest : t.asked.request = s.asked.request := hsame request
  have htarget : t.asked.target = s.asked.target := hsame Cpu.target
  have hdue (hsome : t.asked.latched.isSome = true) : t.asked.request.cycle ≤ t.asked.cycle := by
    have hle : s.asked.cycle ≤ t.asked.cycle := UInt32.le_iff_toNat_le.mpr (by omega)
    rw [hrequest]
    exact UInt32.le_trans (hs.underway.punctual (hlatched ▸ hsome) hearly) hle
  exact ⟨⟨hs.underway.of_twins h.twins htarget fun hsome _ => hdue hsome, by omega, hdue⟩, hcycle⟩

theorem InUnit.closes (h : s.InUnit config map target P p 4) (horderly : s.Orderly)
    (hearly : s.asked.cycle < target) :
    s.Closes config map target s.asked.cycle.toNat := by
  have hstart : s.Amid h.underway.upkeep s P p 0 0 :=
    .start h.underway.sole ⟨h.underway.tidy, h.underway.decoded⟩ h.member h.site h.ready
  obtain ⟨inst, hinst⟩ : ∃ inst, ∀ inst', p.unit = .instruction inst' → inst = inst' := by
    cases p.unit with
    | instruction inst => exact ⟨inst, fun _ heq => CodeUnit.instruction.inj heq⟩
    | missing address => exact ⟨.ofInvalid 0 0, fun _ heq => by cases heq⟩
  obtain ⟨t, hcourse, hexits⟩ := Amid.course (Fragment.standsAt_self _)
    (hstart.runs h.ready.stack hinst) hstart h.ready.stack
  rw [Nat.zero_add] at hexits
  have hpath : ReflTransGen Advances s t :=
    ReflTransGen.mono (fun _ _ hvisits => hvisits.step) _ _ hcourse
  -- where control comes to the head of another unit
  have hmoves {P' : Pair → Prop} {q : Pair} {spent i : Nat} {u : Session}
      (hamid : t.Amid h.underway.upkeep s P' p spent i) (hready : t.machine.Ready)
      (hspent : spent ≤ 256 * config.clockDivider.toNat) (hpaid : 0 < spent) (hq : P' q)
      (hu : u = t.goto q.left.toUInt32) (hlast : ReflTransGen Advances t u) :
      s.Closes config map target s.asked.cycle.toNat := by
    subst hu
    obtain ⟨hmidway, hcycle⟩ := Amid.midway h hearly hamid hspent
    have hnow := hmidway.now
    refine .moves (hpath.trans hlast) ⟨hmidway.toUnderway, hq, rfl, hready⟩ ?_ ?_
    · change _ < t.asked.cycle.toNat
      omega
    · change t.asked.cycle.toNat ≤ _
      omega
  cases hexits with
  | @falls P' spent amid stack post =>
    obtain ⟨hready, hfalls, hspent, hpaid⟩ := post
    obtain ⟨q, hq, heq | hjump, -⟩ := amid.linked.tail hfalls
    · have hsite : t.site = q.left.toUInt32 := (amid.site stack).trans (congrArg Nat.toUInt32 heq)
      exact hmoves amid hready hspent (hpaid h.underway.ticks) hq (by rw [← hsite]; rfl) .refl
    · exact hmoves amid hready hspent (hpaid h.underway.ticks) hq rfl
        (.single (step_jumpsTo amid.room (amid.site stack) hjump))
  | @goes P' spent i x amid stack item needed =>
    obtain ⟨q, hq, hjump, -⟩ := amid.linked.jump item item rfl
    exact hmoves amid (amid.ready stack (Nat.le_of_lt (List.getElem?_eq_some_iff.mp item).1))
      needed.1 (needed.2 h.underway.ticks) hq rfl
      (.single (step_jumpsTo amid.room (amid.site stack) hjump))
  | @serves P' spent i service amid op asking why =>
    have hstep : t.step = t.serve service := by rw [step, op]
    have hfits := horderly.served hpath hstep
    rcases why with ⟨haway, hspent, hpaid, -⟩ | ⟨hservice, houtcome, hspent, -⟩
    · obtain ⟨hmidway, hcycle⟩ := Amid.midway h hearly amid hspent
      exact .of_settles hpath hstep (hmidway.serve_away _ haway hfits (by omega)
        (hpaid.imp_right fun hticks => by have hpaid := hticks h.underway.ticks; omega))
    · obtain ⟨hmidway, hcycle⟩ := Amid.midway h hearly amid hspent
      exact .of_settles hpath hstep (hmidway.serve_back _ hservice houtcome hfits (by omega))
  | @locates P' spent i amid asking site stack jump needed =>
    obtain ⟨hspent, hpaid, -⟩ := needed
    have hpaid := hpaid.resolve_left Bool.false_ne_true h.underway.ticks
    obtain ⟨hmidway, hcycle⟩ := Amid.midway h hearly amid hspent
    have hop := op?_gate amid.room amid.gates .locate
    rw [← site] at hop
    have hstep : t.step = t.serve .locate := by
      rw [step, hop]
      rfl
    rcases amid.located site stack jump (horderly.served hpath hstep) with
      ⟨e, hfail⟩ | ⟨P₁, q, -, htwins, hq, v, hnext, hquiet⟩
    · exact .fails hpath (hstep.trans (serve_fail hfail))
    · obtain ⟨clocks, hmost, hlater⟩ := t.asked.schedule_resolve
        (t.machine.state.reg Role.scratch1) (t.asked.caller? t.machine.state)
      have hlines := lasting_lines.resolve t.asked
        (t.machine.state.reg Role.scratch1) (t.asked.caller? t.machine.state)
      rw [← t.asked.serve_locate_cpu] at hlater hlines
      have hlow : s.asked.cycle.toNat <
          t.asked.cycle.toNat + clocks * config.clockDivider.toNat := by omega
      have harrives := hmidway.arrives htwins hmost hlater (.inr hlines) hlow
      have hasked : (t.back .locate q.left.toUInt32).asked = (t.served .locate).cpu :=
        storeHost_loadHost _ _
      rw [← hasked] at harrives
      refine .moves ((hpath.tail hnext).trans ?_) ⟨harrives.1, hq, rfl, back_ready _ _ _⟩
        harrives.2.1 harrives.2.2
      exact ReflTransGen.mono (fun _ _ hquiet => hquiet.1) _ _ hquiet

/-- A run ends, in time if it does not fail: at the end it is to have, or as a device or a
breakpoint asks for. -/
def Concludes (target : UInt32) (most : Nat) (s : Session) : Prop :=
  ∃ t result c, ReflTransGen Advances s t ∧ t.step = .done result c ∧
    (result = .ok () → c.cycle.toNat ≤ most ∧
      (target ≤ c.cycle ∨ c.returnRequested = true ∨ t.HandlerStops))

theorem Concludes.earlier {most : Nat} (h : t.Concludes target most)
    (hpath : ReflTransGen Advances s t) : s.Concludes target most := by
  obtain ⟨u, result, c, hpath', hrest⟩ := h
  exact ⟨u, result, c, hpath.trans hpath', hrest⟩

/-- The clock at the head of units goes up, so it is not for ever below the end of the run. -/
theorem InUnit.concludes {most : Nat} (h : s.InUnit config map target P p 0) (horderly : s.Orderly)
    (hnow : s.asked.cycle.toNat ≤ most)
    (hmost : target.toNat + 512 * config.clockDivider.toNat ≤ most) :
    s.Concludes target most := by
  induction hrest : 2 ^ 32 - s.asked.cycle.toNat using Nat.strongRecOn generalizing s P p with
  | ind rest ih =>
    have hcloses (hcloses : s.Closes config map target s.asked.cycle.toNat) :
        s.Concludes target most := by
      cases hcloses with
      | fails path step => exact ⟨_, _, _, path, step, nofun⟩
      | ended path step due last =>
        exact ⟨_, _, _, path, step, fun _ => ⟨by omega, .inl due⟩⟩
      | @moves t _ _ path head least last =>
        have hbelow := t.asked.cycle.toNat_lt
        exact (ih _ (by omega) head (horderly.later path) (by omega) rfl).earlier path
    cases h.opens horderly with
    | ended path step cycle _ _ why =>
      exact ⟨_, _, _, path, step, fun _ => ⟨cycle ▸ hnow, why⟩⟩
    | diverts _ closes => exact hcloses closes
    | @enters t _ _ early path body same =>
      have hcycle : t.asked.cycle = s.asked.cycle := congrArg Schedule.cycle same
      have hbody := body.closes (horderly.later path) (hcycle ▸ early)
      rw [hcycle] at hbody
      exact hcloses (hbody.earlier path)

end

end Session

namespace Cpu

theorem attentive_target : Attentive fun x y => y.target = x.target where
  trans h h' := h'.trans h
  pass _ _ _ := rfl
  setFlag _ _ _ := rfl
  afterWrite _ _ _ action := by
    cases action <;> rfl
  note _ _ _ _ _ _ := rfl
  locate _ _ := rfl
  addressError x fault := congrArg Schedule.target (x.schedule_takeAddressError fault)
  exception x vector pc := congrArg Schedule.target (x.schedule_takeException vector pc)
  refresh _ _ := rfl
  restoreBoundary _ _ _ := rfl
  latch _ := rfl
  forget _ _ _ _ _ := rfl
  interrupt x level pc := congrArg Schedule.target (x.schedule_takeInterrupt level pc)

theorem target_serve (cpu : Cpu) (host : State) (service : Service) :
    (cpu.serve host service).cpu.target = cpu.target :=
  attentive_target.serve host fun _ => ⟨fun _ _ => rfl, fun _ _ _ => rfl⟩

end Cpu

theorem Session.target_advances {s t : Session} (h : ReflTransGen Advances s t) :
    t.asked.target = s.asked.target := by
  induction h with
  | refl => rfl
  | @tail t u _ hstep ih =>
    have hkept : t.step.cpu.target = t.cpu.target :=
      t.related_step (R := fun x y => y.target = x.target) (fun _ => t.asked.target_serve _ _) rfl
        fun _ _ => id
    rw [hstep] at hkept
    exact hkept.trans ih

namespace Cpu.Underway

theorem enter (h : c.Underway config map target P) (hlatched : c.latched = none)
    (hroom : max c.cycle.toNat target.toNat + 50 * config.clockDivider.toNat < 2 ^ 32)
    (hfits : c.enter.2.Fits) :
    (∃ e, c.enter.1 = .error e) ∨
      (c.enter.1 = .ok none ∧ c.enter.2.cycle = max c.cycle target) ∨
      ∃ (P' : Pair → Prop) (q : Pair), P' q ∧ c.enter.1 = .ok (some q.left.toUInt32) ∧
        c.enter.2.Underway config map target P' ∧
        c.enter.2.cycle.toNat ≤
          max c.cycle.toNat target.toNat + 50 * config.clockDivider.toNat := by
  by_cases hstopped : c.stopped = true
  · rw [Cpu.enter, if_pos hstopped] at hfits ⊢
    rcases h.wake hfits hroom (fun hsome => by cases hlatched ▸ hsome) with
      heq | hfail | ⟨P', q, hq, hjump, hunderway, -, -, hmost⟩
    · rw [heq]
      exact .inr (.inl ⟨rfl, rfl⟩)
    · exact .inl hfail
    · exact .inr (.inr ⟨P', q, hq, hjump, hunderway, hmost⟩)
  · obtain ⟨clocks, hclocks, hlater⟩ := c.schedule_resolve c.pc none
    have hlines := lasting_lines.resolve c c.pc none
    have htwins := h.twins.resolve c.pc none
    have hspent : clocks * config.clockDivider.toNat ≤ 50 * config.clockDivider.toNat :=
      Nat.mul_le_mul_right _ hclocks
    have hcycle := h.toNat_later (by omega) (by omega) hlater
    rw [Cpu.enter, if_neg hstopped] at hfits ⊢
    generalize c.resolve c.pc none = r at hfits hlater hlines htwins hcycle ⊢
    obtain ⟨entry, after⟩ := r
    cases entry with
    | error e => exact .inl ⟨e, rfl⟩
    | ok native =>
      obtain ⟨P', -, htwins', ⟨q, hq, hleft, -⟩ | ⟨e, -, hfail, -⟩⟩ :=
        htwins (fit_alone hfits)
      · have hnone : after.latched = none :=
          (congrArg InterruptLines.latched hlines).trans hlatched
        cases hleft
        refine .inr (.inr ⟨P', q, hq, rfl, ?_, ?_⟩)
        · refine h.of_twins htwins' (congrArg Schedule.target hlater) fun hsome _ => ?_
          rw [hnone] at hsome
          cases hsome
        · change after.cycle.toNat = _ at hcycle
          change after.cycle.toNat ≤ _
          omega
      · cases hfail

theorem begins (h : Underway config map target P (c.aim target)) (hlatched : c.latched = none)
    (hroom : max target.toNat c.cycle.toNat + 50 * config.clockDivider.toNat < 2 ^ 32)
    (hfits : (c.begin target).cpu.Fits) :
    (∃ e last, c.begin target = .done (.error e) last) ∨
      (∃ last, c.begin target = .done (.ok ()) last ∧ last.cycle = max c.cycle target) ∨
      ∃ first P' q, c.begin target = .next first ∧ first.InUnit config map target P' q 0 ∧
        first.asked.cycle.toNat ≤
          max target.toNat c.cycle.toNat + 50 * config.clockDivider.toNat := by
  rw [Nat.max_comm] at hroom ⊢
  have henter := h.enter hlatched hroom
  have hfits' : (c.aim target).enter.2.Fits := by
    rcases c.begin_cpu target with heq | heq
    · rwa [heq] at hfits
    · rwa [heq] at hfits
  rw [begin]
  generalize (c.aim target).enter = r at hfits' henter ⊢
  obtain ⟨outcome, after⟩ := r
  rcases henter hfits' with
    ⟨e, heq⟩ | ⟨heq, hcycle⟩ | ⟨P', q, hq, heq, hunderway, hmost⟩
  · cases heq
    exact .inl ⟨e, after, rfl⟩
  · cases heq
    exact .inr (.inl ⟨after, rfl, hcycle⟩)
  · cases heq
    have hasked : (Session.start after.updateLimit q.left.toUInt32).asked = after.updateLimit :=
      after.updateLimit.storeHost_loadHost _
    dsimp only
    rcases (Step.next (Session.start after.updateLimit q.left.toUInt32)).translated_cases with
      heq | heq
    · rw [heq]
      refine .inr (.inr ⟨_, P', q, rfl,
        ⟨?_, hq, rfl, loadHost_context _ _, loadHost_stack _ _⟩, ?_⟩)
      · rw [hasked]
        exact hunderway.change (.refl _) rfl rfl hunderway.punctual
      · rw [hasked]
        exact hmost
    · rw [heq]
      exact .inl ⟨_, _, rfl⟩

end Cpu.Underway

theorem Cpu.IsNew.positive (h : cpu.IsNew config memory) : 0 < config.clockDivider.toNat := by
  have hcreated := h.created
  rw [create, Config.validate] at hcreated
  refine Nat.pos_of_ne_zero fun hzero => ?_
  rw [if_pos (UInt32.toNat_inj.mp hzero)] at hcreated
  cases hcreated

namespace Session

theorem AtBoundary.head {allowed : Operation → Prop} {U : Upkeep config map allowed} {w : Watch}
    {s : Session} (h : s.AtBoundary) (hholds : (alone U).Holds w P s) :
    s.machine.Ready ∧ ∃ p, P p ∧ s.site = p.left.toUInt32 := by
  obtain ⟨hsole, -⟩ := twins_alone_iff.mp hholds.twins
  have hhead : ∃ p, P p ∧ s.site = p.left.toUInt32 := by
    rcases h with ⟨address, hrecorded⟩ | ⟨x, hlookup⟩
    · obtain ⟨-, p, inst, hp, hsite, -⟩ := hholds.head hrecorded
      exact ⟨p, hp, hsite⟩
    · obtain ⟨q, hq, hsite, -, -⟩ := hsole.lookup hlookup
      exact ⟨q, hq, hsite⟩
  obtain ⟨p, hp, hsite⟩ := hhead
  refine ⟨hholds.clear.resolve_right fun hgate => ?_, p, hp, hsite⟩
  rw [hsite, hsole.place hp] at hgate
  obtain ⟨-, pieces, hmatched, rfl⟩ := hsole
  obtain ⟨piece, hpiece, rfl⟩ := List.mem_map.mp hp
  have habove := hmatched.left.above piece hpiece
  change piece.left < _ at hgate
  omega

end Session

theorem Cpu.IsNew.orderly (hnew : cpu.IsNew config memory)
    (hpath : ReflTransGen (Next fun _ => True) (.idle cpu) (.idle c))
    (hroom : c.Throughout Fits target) {first : Session} (hbegin : c.begin target = .next first) :
    first.Orderly where
  fits := hroom.2 first hbegin
  timely t ht := by
    have hnext : Next (fun _ => True) (.idle c) (c.begin target).moment := .begin c target
    rw [hbegin] at hnext
    exact hnew.timely ((hpath.tail hnext).trans (Session.moments_of_advances _ ht))
      (t.grows_step.fits (hroom.2 first hbegin t ht))

theorem Cpu.IsNew.decoded (hnew : cpu.IsNew config memory) (heven : memory.KeepsEven) {m : Moment}
    (hpath : ReflTransGen (Next fun _ => True) (.idle cpu) m) (hfits : m.cpu.Fits) :
    ∃ P : Pair → Prop,
      (alone (Steady.decoded heven hnew.sound : Steady config memory).upkeep).Tracks
        (.off cpu.registers) P m := by
  refine hnew.tracks (Steady.decoded heven hnew.sound).upkeep ?_ (fun _ _ => trivial) hpath hfits
    cpu.registers
  exact ⟨⟨fun _ hp => hp.elim, fun _ hp => hp.elim, fun _ hp => hp.elim⟩, fun _ hp => hp.elim⟩

section

variable {map memory : MemoryMap} (hbus : map.addressMask = 0xFFFFFF) (hshape : map.SameShape memory)
  {s : CodeStore} (h : s.endless = false)
include hbus hshape h

theorem CodeStore.searches_write (x : UInt32) (w : MemoryMap.Write) :
    (s.noteWrite config (memory.canonical x) w.bytes).endless = false := by
  have hle : (memory.canonical x).toNat ≤ 0xFFFFFF :=
    MemoryMap.canonical_le_bus (hshape.bus.trans hbus) x
  have hother : memory.canonical x + w.bytes.toUInt32 ≠ 0xFFFFFFFF := by
    intro hx
    have hbytes : w.bytes ≤ 4 := by
      cases w <;> exact Nat.le_of_ble_eq_true rfl
    have hnat := congrArg UInt32.toNat hx
    rw [UInt32.toNat_add, Nat.toUInt32, UInt32.toNat_ofNat'] at hnat
    change (_ + w.bytes % 2 ^ 32) % 2 ^ 32 = 2 ^ 32 - 1 at hnat
    omega
  rw [endless_noteWrite, decide_eq_false hother, Bool.and_false, Bool.or_false]
  exact h

theorem CodeStore.searches_range (start stop : UInt32) :
    (s.redirectRange config memory.canonical start stop).endless = false := by
  refine (s.endless_redirectRange config (fun x hx => ?_) start stop).trans h
  have hle : (memory.canonical x).toNat ≤ 0xFFFFFF :=
    MemoryMap.canonical_le_bus (hshape.bus.trans hbus) x
  have hnat := congrArg UInt32.toNat hx
  rw [UInt32.toNat_add] at hnat
  change ((memory.canonical x).toNat + 2) % 2 ^ 32 = 2 ^ 32 - 1 at hnat
  omega

end

theorem CodeStore.endless_placeBreakpoint (s : CodeStore) (address : UInt32) :
    (s.placeBreakpoint address).endless = s.endless := by
  unfold placeBreakpoint
  split
  · exact (s.lengthened_setBreakpoint _ _).endless
  · rfl

theorem CodeStore.endless_liftBreakpoint (s : CodeStore) (address : UInt32) :
    (s.liftBreakpoint address).endless = s.endless := by
  unfold liftBreakpoint
  split
  · split
    · exact (s.lengthened_overwriteWith _ _).endless
    · rfl
  · rfl

/-- On a bus of 24 bits no search goes on for ever. -/
def Upkeep.bounded (config : Config) {map : MemoryMap} (hbus : map.addressMask = 0xFFFFFF) :
    Upkeep config map fun _ => True :=
  { Upkeep.trivial config map with
    Inv _ _ s := s.endless = false
    opened _ _ _ _ := True.intro
    similar h _ := h
    write {view} _ _ x w hsole h :=
      CodeStore.searches_write hbus (hsole.fixed.shape.trans (view.memory.sameShape_write x w)) h x w
    locate {view} _ s _ x _ _ h _ _ := (s.lengthened_locate view x).endless.trans h
    refresh {view} _ s _ _ _ x _ _ _ h _ _ := (s.lengthened_refresh view x).endless.trans h
    stale {_ _ s} _ _ _ _ _ h _ _ _ _ _ := (s.lengthened_overwriteWith _ _).endless.trans h
    invalidate start stop _ hsole h := CodeStore.searches_range hbus hsole.fixed.shape h start stop
    selectBank _ _ _ hbank hsole h := CodeStore.searches_range hbus
      (hsole.fixed.shape.trans (MemoryMap.sameShape_selectBank _ hbank)) h _ _
    insertBreakpoint _ _ _ _ _ h := (CodeStore.endless_placeBreakpoint _ _).trans h
    removeBreakpoint _ _ _ _ h := (CodeStore.endless_liftBreakpoint _ _).trans h
    changeMemory _ _ _ _ h := h }

/-- No search for code that a write has changed goes on for ever. -/
def Cpu.Searches (cpu : Cpu) : Prop :=
  cpu.store.endless = false

theorem Cpu.IsNew.searches (hnew : cpu.IsNew config memory) (hbus : memory.addressMask = 0xFFFFFF)
    {m : Moment} (hpath : ReflTransGen (Next fun _ => True) (.idle cpu) m)
    (hfits : m.cpu.Fits) : m.cpu.Searches := by
  obtain ⟨P, htracks⟩ := hnew.tracks (.bounded config hbus) rfl (fun _ _ => trivial) hpath hfits
    cpu.registers
  exact htracks.sole.2

theorem Cpu.IsNew.searches_throughout (hnew : cpu.IsNew config memory)
    (hbus : memory.addressMask = 0xFFFFFF)
    (hpath : ReflTransGen (Next fun _ => True) (.idle cpu) (.idle c))
    (hroom : c.Throughout Fits target) : c.Throughout Searches target := by
  have hbegin := hpath.tail (.begin c target)
  constructor
  · have hsearches := hnew.searches hbus hbegin
    rw [Step.moment_cpu] at hsearches
    exact hsearches hroom.1
  · intro s hs t ht
    rw [hs] at hbegin
    have hstep := hnew.searches hbus ((hbegin.trans (Session.moments_of_advances _ ht)).tail (.step t))
    rw [Step.moment_cpu] at hstep
    exact hstep (hroom.2 s hs t ht)

theorem Cpu.Throughout.runsTo_of_done {c last : Cpu} {target : UInt32}
    {result : Except CpuError Unit} (h : c.Throughout Searches target)
    (hbegin : c.begin target = .done result last) : c.RunsTo target (result, last) := by
  have hlast := h.1
  rw [hbegin] at hlast
  rw [RunsTo, hbegin]
  exact ⟨hlast, rfl⟩

theorem Cpu.Throughout.runUntil_of_ends {c last : Cpu} {target : UInt32} {first : Session}
    {result : Except CpuError Unit} (h : c.Throughout Searches target)
    (hbegin : c.begin target = .next first) (hends : first.Ends (result, last)) :
    c.runUntil target = some (result, last) ∨
      ∃ size full, c.runUntil target = some (.error (.nativeCode size), full) := by
  have hlast : last.Searches := by
    obtain ⟨t, hsteps, hdone⟩ := hends
    have hcpu := h.2 first hbegin t hsteps
    rw [hdone] at hcpu
    exact hcpu
  have hruns {answer : Except CpuError Unit × Cpu} (hhalts : first.Halts answer) :
      c.RunsTo target answer := by
    rw [RunsTo, hbegin]
    exact hhalts
  rcases hends.halts_or_overfull hlast with hhalts | ⟨full, hhalts⟩
  · exact .inl (hruns hhalts).runUntil_eq
  · exact .inr ⟨_, full, (hruns hhalts).runUntil_eq⟩

/-- Runs end, and at the right boundary. For every processor whose memory ranges start at even
addresses, whatever was done with it before, with no interrupt latched and with the clock and the
end of the run not too late for the clock to go on without wrapping, a run ends, as long as its code
fits and, on a bus of 32 bits, no search for written code goes on for ever. Unless it fails, that is
at its end, or as a device or the handler of a breakpoint asks for, with the clock less than 1024
processor clocks past the end and the start of the run. And where code of an instruction begins at
the end of the run or later, nothing more is done. -/
theorem run_ends_at_boundary {cpu : Cpu} {config : Config} {memory : MemoryMap}
    (hnew : cpu.IsNew config memory) (hstarts : ∀ chunk ∈ memory.chunks, chunk.start &&& 1 = 0)
    {c : Cpu} (hpath : ReflTransGen (Next fun _ => True) (.idle cpu) (.idle c))
    (hlatched : c.latched = none) {target : UInt32}
    (hcycle : c.cycle.toNat + 1024 * config.clockDivider.toNat ≤ 2 ^ 32)
    (htarget : target.toNat + 1024 * config.clockDivider.toNat ≤ 2 ^ 32)
    (hroom : c.Throughout Fits target)
    (hsearches : memory.addressMask = 0xFFFFFF ∨ c.Throughout Searches target) :
    (∃ result last, c.runUntil target = some (result, last) ∧
      (result = .ok () →
        last.cycle.toNat < max target.toNat c.cycle.toNat + 1024 * config.clockDivider.toNat ∧
        (target ≤ last.cycle ∨ last.returnRequested = true ∨
          ∃ first t : Session, c.begin target = .next first ∧
            ReflTransGen Session.Advances first t ∧ t.step = .done result last ∧ t.HandlerStops))) ∧
    ∀ first s : Session, c.begin target = .next first → ReflTransGen Session.Advances first s →
      s.AtBoundary → target ≤ s.asked.cycle →
        ∃ last, s.Ends (.ok (), last) ∧ last.cycle = s.asked.cycle ∧
          last.registers = s.asked.registers ∧ last.memory.chunks = s.asked.memory.chunks := by
  have ht : config.Ticks := ⟨hnew.positive, by omega⟩
  have heven := MemoryMap.keepsEven_of_starts hstarts
  have hpositive := hnew.positive
  obtain ⟨P, htracks⟩ := hnew.decoded heven hpath ((c.grows_begin target).fits hroom.1)
  obtain ⟨hsole, htidy, hdecoded⟩ : Sole config memory c.view P c.store ∧ Tidy memory P c.store ∧
    ∀ p, P p → p.unit.Shaped := htracks.sole
  have hready : Underway config memory target P (c.aim target) := by
    refine ⟨ht, heven, htarget, hsole, htidy, hdecoded, fun hsome _ => ?_, rfl⟩
    rw [show (c.aim target).latched = none from hlatched] at hsome
    cases hsome
  have hbegins := hready.begins hlatched (by omega) hroom.1
  have hends : c.Throughout Searches target :=
    hsearches.elim (hnew.searches_throughout · hpath hroom) id
  constructor
  · rcases hbegins with
      ⟨e, last, hbegin⟩ | ⟨last, hbegin, hlast⟩ | ⟨first, P', q, hbegin, hhead, hnow⟩
    · exact ⟨_, _, (hends.runsTo_of_done hbegin).runUntil_eq, fun hok => by cases hok⟩
    · have hruns := hends.runsTo_of_done hbegin
      have hmax := UInt32.toNat_max c.cycle target
      rw [← hlast] at hmax
      refine ⟨_, _, hruns.runUntil_eq, fun _ => ⟨by omega, .inl ?_⟩⟩
      exact UInt32.le_iff_toNat_le.mpr (by omega)
    · obtain ⟨t, result, last, hsteps, hdone, hend⟩ := hhead.concludes
        (hnew.orderly hpath hroom hbegin)
        (Nat.le_trans hnow (Nat.add_le_add_left (Nat.mul_le_mul_right _ (by decide : 50 ≤ 512)) _))
        (Nat.add_le_add_right (Nat.le_max_left _ c.cycle.toNat) _)
      rcases hends.runUntil_of_ends hbegin ⟨t, hsteps, hdone⟩ with hruns | ⟨size, full, hruns⟩
      · refine ⟨result, last, hruns, fun hok => ?_⟩
        obtain ⟨hmost, hwhy⟩ := hend hok
        refine ⟨by omega, hwhy.imp_right (.imp_right fun hstops => ?_)⟩
        exact ⟨first, t, hbegin, hsteps, hdone, hstops⟩
      · exact ⟨_, _, hruns, fun hok => by cases hok⟩
  · intro first s hbegin hsteps hboundary hover
    have horderly := (hnew.orderly hpath hroom hbegin).later hsteps
    have hreached : ReflTransGen (Next fun _ => True) (.idle cpu) (.running s) := by
      have hnext : Next (fun _ => True) (.idle c) (c.begin target).moment :=
        .begin c target
      rw [hbegin] at hnext
      exact (hpath.tail hnext).trans (Session.moments_of_advances _ hsteps)
    obtain ⟨P', htracks'⟩ := hnew.decoded heven hreached
      (s.grows_step.fits (hroom.2 first hbegin s hsteps))
    obtain ⟨hsole', htidy', hdecoded'⟩ : Sole config memory s.cpu.view P' s.cpu.store ∧
      Tidy memory P' s.cpu.store ∧ ∀ p, P' p → p.unit.Shaped := htracks'.sole
    obtain ⟨hready', p, hp, hsite⟩ := hboundary.head htracks'.1
    have hkept : s.asked.target = target := by
      rw [Session.target_advances hsteps]
      rcases hbegins with ⟨e, last, heq⟩ | ⟨last, heq, -⟩ | ⟨first', P'', q, heq, hhead, -⟩
      · cases heq.symm.trans hbegin
      · cases heq.symm.trans hbegin
      · cases heq.symm.trans hbegin
        exact hhead.underway.target
    have hhead : s.InUnit config memory target P' p 0 :=
      ⟨⟨ht, heven, htarget, hsole', htidy', hdecoded',
        fun _ hearly => absurd hover (UInt32.not_le.mpr hearly), hkept⟩, hp, hsite, hready'⟩
    have hlate : ¬s.asked.cycle < target := UInt32.not_lt.mpr hover
    cases hhead.opens horderly with
    | ended path step cycle registers chunks => exact ⟨_, ⟨_, path, step⟩, cycle, registers, chunks⟩
    | diverts early => exact absurd early hlate
    | enters early => exact absurd early hlate

/-- A run that compiles code again on its way, and the last boundary of it. -/
theorem run_ends_at_boundary_renewing :
    ∃ (last : Cpu) (s : Session), (renewing .default).runUntil 26 = some (.ok (), last) ∧
      last.cycle.toNat < 26 + 1024 * Config.default.clockDivider.toNat ∧
      last.store.counters.recompiled = 2 ∧ s.AtBoundary ∧
      ∃ last', s.Ends (.ok (), last') ∧ last'.cycle = s.asked.cycle ∧
        last'.registers = s.asked.registers := by
  obtain ⟨last, hruns, hroom, ⟨-, hrecompiled⟩, -⟩ := renewing_runsTo
  obtain ⟨r, s, hbegin, hpath, horigin, -, hlate, -⟩ := renewing_boundary
  have hprepared : ReflTransGen (Next fun _ => True) _ (.idle (.renewing .default)) :=
    .single (.operate _ (.setD 0 0x7201) True.intro)
  obtain ⟨⟨result, last', hends, hbounds⟩, hlast⟩ := run_ends_at_boundary
    (isNew_program (by decide) rfl) (by decide) hprepared rfl (by decide) (by decide)
    (hruns.throughout hroom.native hroom.fits fun _ _ => Grows.fits) (.inl rfl)
  obtain ⟨rfl, rfl⟩ := Prod.mk.inj (Option.some.inj (hends.symm.trans hruns.runUntil_eq))
  have hboundary : s.AtBoundary := .inl ⟨0, horigin⟩
  obtain ⟨last'', hdone, hcycle, hregisters, -⟩ := hlast r s hbegin hpath hboundary hlate
  exact ⟨_, s, hends, (hbounds rfl).1, hrecompiled, hboundary, last'', hdone, hcycle, hregisters⟩

end Dynarec68k
