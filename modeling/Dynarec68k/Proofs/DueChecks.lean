import Dynarec68k.Proofs.CodeUpkeep
import Dynarec68k.Proofs.CycleLimit
import Dynarec68k.Proofs.HeadSteps
import Dynarec68k.Proofs.SampleRuns

/-!
Nothing that is due is missed. Where the code of an instruction begins with the cycle limit reached,
control passes through heads only, and comes to a gate that looks around before the body of any
instruction: `Session.Attends`. It cannot go round in circles, as old code leads to newer code only.
-/

namespace Dynarec68k

open Host Relation

variable {config : Config} {map : MemoryMap}

/-- Code has a head of its own or leads to newer code, and what calls the breakpoint gate for an
even address can be found under it. -/
def Onward (P : Pair → Prop) (s : CodeStore) : Prop :=
  ∀ p, P p →
    (∃ kind opened checked, s.code.HeadAt p.left kind opened checked none ∧
      (kind = .breakpoint → opened &&& 1 = 0 → (s.lookup opened).isSome = true)) ∨
    ∃ q, P q ∧ p.left < q.left ∧ s.code.JumpsTo p.left q.left

namespace Onward

variable {view : GuestView} {P P' : Pair → Prop}
  {s s' : CodeStore} {pairs pairs' : List Pair} {fresh : CodeUnit → Prop} {ok : UInt32 → Prop}
  {replaced : Option UInt32} {x : UInt32}

theorem rehead (h : Onward P s) (hentries : s'.entries = s.entries)
    (hheads : ∀ p, P p → (∀ i < 4, s'.code.ops[p.left + i]? = s.code.ops[p.left + i]?) ∨
      ∃ x kind checked n, s.lookup x = some n ∧ s'.code.HeadAt p.left kind x checked none) :
    Onward P s' := by
  have hkept (y : UInt32) : s'.lookup y = s.lookup y := by
    rw [CodeStore.lookup, CodeStore.lookup, hentries]
  intro p hp
  rcases hheads p hp with hsame | ⟨x, kind, checked, n, hlookup, hhead⟩
  · rcases h p hp with ⟨kind, opened, checked, hhead, hfound⟩ | ⟨q, hq, hlt, hjump⟩
    · refine .inl ⟨kind, opened, checked, hhead.congr hsame, ?_⟩
      rw [hkept]
      exact hfound
    · exact .inr ⟨q, hq, hlt, (hsame 0 (by omega)).trans hjump⟩
  · refine .inl ⟨kind, x, checked, hhead, fun _ _ => ?_⟩
    rw [hkept, hlookup]
    rfl

theorem grown (h : Onward (· ∈ pairs) s) (hgrown : Grown view fresh replaced pairs s pairs' s') :
    Onward (· ∈ pairs') s' := by
  intro p hp
  by_cases hp' : p ∈ pairs
  · have hsame := hgrown.heads p hp'
    rcases h p hp' with ⟨kind, opened, checked, hhead, hfound⟩ | ⟨q, hq, hlt, hjump⟩
    · exact .inl ⟨kind, opened, checked, hhead.congr hsame,
        fun hkind heven => hgrown.stays _ (hfound hkind heven)⟩
    · exact .inr ⟨q, hgrown.keeps q hq, hlt, (hsame 0 (by omega)).trans hjump⟩
  · have hheaded := ((hgrown.added p hp).resolve_left hp').2
    have hfilled := (hgrown.filled p hp).resolve_left hp'
    exact .inl ⟨_, _, _, hheaded, fun _ heven => hfilled _ heven rfl⟩

theorem refreshed (h : Onward (· ∈ pairs) s) (hsole : Sole config map view (· ∈ pairs) s)
    (hsole' : Sole config map view (· ∈ pairs') s')
    (hrefreshed : Refreshed view ok x pairs s pairs' s') : Onward (· ∈ pairs') s' := by
  obtain ⟨q, r, hq, hleft, -, hgrown, hmoved⟩ := hrefreshed
  have hmiddle := h.grown hgrown
  rcases hmoved with ⟨-, rfl⟩ | ⟨old, hold, -, kind, opened, checked, hpatched⟩
  · exact hmiddle
  · intro p hp
    rcases hsole'.heads_patched (hgrown.keeps old hold) hp hpatched with rfl | hsame
    · have hwithin := hsole.within hold
      exact .inr ⟨q, hq, by omega, hpatched.head.first⟩
    · rcases hmiddle p hp with ⟨kind, opened, checked, hhead, hfound⟩ | ⟨n, hn, hlt, hjump⟩
      · refine .inl ⟨kind, opened, checked, hhead.congr hsame, ?_⟩
        rw [CodeStore.lookup, hpatched.entries]
        exact hfound
      · exact .inr ⟨n, hn, hlt, (hsame 0 (by omega)).trans hjump⟩

theorem keeps (h : Onward P s) (hsole : Sole config map view P s)
    (hsole' : Sole config map view P' s') (hreworked : Reworked view ok P s P' s') :
    Onward P' s' := by
  cases hreworked with
  | @redirected pairs _ hpairs hredirects =>
    refine h.rehead hredirects.entries fun p hp => ?_
    rw [hpairs] at hp
    refine (hredirects.heads p hp).imp_right ?_
    rintro ⟨x, checked, hlookup, hhead⟩
    exact ⟨x, _, checked, _, hlookup, hhead⟩
  | @patched _ q x checked kind hq hlookup hchecked _ hpatched =>
    refine h.rehead hpatched.entries fun p hp => ?_
    rcases hsole.heads_patched hq hp hpatched with rfl | hsame
    · exact .inr ⟨x, kind, checked, _, hlookup, hpatched.head⟩
    · exact .inl hsame
  | grown hpairs hgrown =>
    subst hpairs
    exact h.grown hgrown
  | refreshed hpairs hrefreshed =>
    subst hpairs
    exact h.refreshed hsole hsole' hrefreshed

end Onward

def Steady.onward (config : Config) (map : MemoryMap) : Steady config map where
  ok _ := True
  Inv := Onward
  stays _ := GuestView.stays_all _
  even _ := trivial
  opened _ _ _ := trivial
  keeps hsole hsole' h hreworked := h.keeps hsole hsole' hreworked

theorem Refreshed.headed {view : GuestView} {ok : UInt32 → Prop} {x : UInt32}
    {pairs pairs' : List Pair} {s s' : CodeStore} {q : Pair}
    (h : Refreshed view ok x pairs s pairs' s') (hsole : Sole config map view (· ∈ pairs) s)
    (hsole' : Sole config map view (· ∈ pairs') s') (hq : q ∈ pairs')
    (hleft : q.left = s.code.ops.size) : q.unit.HeadedAt view s'.code q.left := by
  obtain ⟨_, r, -, -, -, hgrown, hmoved⟩ := h
  have hfresh : q ∉ pairs := by
    intro hold
    have hwithin := hsole.within hold
    omega
  have hheaded := ((hgrown.added q hq).resolve_left hfresh).2
  rcases hmoved with ⟨-, rfl⟩ | ⟨old, hold, -, kind, opened, checked, hpatched⟩
  · exact hheaded
  · rcases hsole'.heads_patched (hgrown.keeps old hold) hq hpatched with rfl | hsame
    · exact absurd hold hfresh
    · exact hheaded.congr hsame

theorem CodeUnit.newKind_cases (part : CodeUnit) (view : GuestView) :
    part.newKind view = .boundary ∨
      part.newKind view = .breakpoint ∧ view.hasBreakpoint part.address = true := by
  cases part with
  | instruction inst =>
    rw [newKind, CodeStore.newKind]
    split
    · exact .inr ⟨rfl, by assumption⟩
    · exact .inl rfl
  | missing => exact .inl rfl

namespace Session

/-- Before the body of any instruction the session comes to a gate that looks around. On the way
there nothing but compiled code changes. -/
inductive Attends : Session → Prop where
  | looks {s : Session} (h : s.step = s.serve .synchronize) : Attends s
  | stops {s : Session} {c : Cpu} (h : s.step = s.serve .breakpoint)
      (hstep : s.step = .done (.ok ()) c) : Attends s
  /-- It looks around in the breakpoint gate, that is in place of the check. -/
  | passes {s : Session} {c : Cpu} {x : UInt32} (h : s.step = s.serve .breakpoint)
      (hserved : s.served .breakpoint = .ofOutcome (c.passBreakpoint x))
      (hlatched : c.latched = s.asked.latched) (hdue : c.limit ≤ c.cycle) : Attends s
  /-- A breakpoint at an odd address is gone, and in place of the instruction an address error is
  taken. -/
  | faults {s : Session} {fault : AddressFault} (h : s.step = s.serve .breakpoint)
      (hserved : s.served .breakpoint = .ofEntry (s.asked.takeAddressError fault)) : Attends s
  | later {s t : Session} (h : s.step = .next t)
      (hsame : ∃ store, t.asked = { s.asked with store := store }) (ht : Attends t) : Attends s

variable {s t : Session}

theorem Idles.attends (h : Idles s t) (ht : t.Attends) : s.Attends := by
  induction h using ReflTransGen.head_induction_on with
  | refl => exact ht
  | @head s r hpasses _ ih =>
    exact .later hpasses.step ⟨s.asked.store, hpasses.asked⟩ ih

theorem attends_breakpoint {x : UInt32} {breakpoint : Breakpoint} (h : s.Enters .breakpoint x t)
    (hfound : s.asked.breakpoints[x]? = some breakpoint) (hdue : s.asked.limit ≤ s.asked.cycle) :
    s.Attends := by
  refine h.idles.attends ?_
  have hserved : t.served .breakpoint = .ofOutcome (s.asked.hitBreakpoint x) := by
    rw [← h.asked, ← h.first]
    rfl
  have hlatched : s.asked.latched = t.asked.latched := by
    rw [h.asked]
  by_cases hskip : s.asked.skipped = some x
  · rw [Cpu.hitBreakpoint_skipped hfound hskip] at hserved
    exact .passes h.step hserved hlatched hdue
  · rw [Cpu.hitBreakpoint_called hfound hskip] at hserved
    cases hanswer : breakpoint.answers breakpoint.calls with
    | stop =>
      rw [hanswer] at hserved
      have hstep : t.step = .done (.ok ()) (t.after .breakpoint).cpu := by
        rw [h.step, serve_eq, show Gate.service .breakpoint = .breakpoint from rfl, hserved]
        rfl
      exact .stops h.step hstep
    | proceed =>
      rw [hanswer] at hserved
      exact .passes h.step hserved hlatched hdue

theorem lands {service : Service} {n : CodePtr} {c : Cpu}
    (hserved : s.served service = ⟨.jump n, c, none⟩) :
    ∃ u, s.serve service = .next u ∧ u.site = n ∧ u.cpu = c ∧ u.asked = c ∧ u.machine.Ready := by
  refine ⟨s.back service n, serve_jump (congrArg Cpu.Served.outcome hserved), rfl,
    congrArg Cpu.Served.cpu hserved, ?_, back_ready _ _ _⟩
  have hasked : (s.back service n).asked = (s.served service).cpu := Cpu.storeHost_loadHost _ _
  rw [hasked, hserved]

section

variable {P : Pair → Prop} {p : Pair} {opened checked : UInt32}
  (hsole : Sole config map s.cpu.view P s.cpu.store) (hsite : s.site = p.left.toUInt32)
  (hdue : s.asked.limit ≤ s.asked.cycle)
include hsole hsite hdue

theorem attends_boundary (hhead : s.cpu.store.code.HeadAt p.left .boundary opened checked none) :
    s.Attends := by
  have hlinked := (matching config _ _ map).linked hsole
  obtain ⟨t, henters⟩ := at_boundary_due hlinked.roomLeft hsite hlinked.gatesLeft hhead hdue
  exact henters.idles.attends (.looks henters.step)

theorem attends_new (hhead : p.unit.HeadedAt s.cpu.view s.cpu.store.code p.left) : s.Attends := by
  rw [CodeUnit.HeadedAt] at hhead
  rcases p.unit.newKind_cases s.cpu.view with hkind | ⟨hkind, hbreakpoint⟩
  · rw [hkind] at hhead
    exact attends_boundary hsole hsite hdue hhead
  · rw [hkind] at hhead
    have hlinked := (matching config _ _ map).linked hsole
    obtain ⟨t, henters⟩ := at_breakpoint hlinked.roomLeft hsite hlinked.gatesLeft hhead
    obtain ⟨breakpoint, hfound⟩ := Option.isSome_iff_exists.mp
      (Std.TreeMap.isSome_getElem?_eq_contains.trans hbreakpoint)
    exact attends_breakpoint henters.toEnters hfound hdue

theorem attends_redirected
    (hhead : s.cpu.store.code.HeadAt p.left .redirected opened checked none)
    (hfits : ∀ u, ReflTransGen Advances s u → u.cpu.Fits) : s.Attends := by
  have hlinked := (matching config _ _ map).linked hsole
  obtain ⟨t, henters⟩ := at_redirected hlinked.roomLeft hsite hlinked.gatesLeft hhead
  let again := s.cpu.store.refresh s.cpu.view opened
  have hserved : t.served .refresh = ⟨.jump again.1, { s.asked with store := again.2 }, none⟩ := by
    rw [served, henters.asked, Cpu.serve, henters.first]
    rfl
  obtain ⟨u, hserve, hsite', hcpu, hasked, -⟩ := lands hserved
  have hstep : t.step = .next u := henters.step.trans hserve
  have hfits' : again.2.Fits := by
    have hfits' := hfits u (henters.path.tail hstep)
    rw [hcpu] at hfits'
    exact hfits'
  obtain ⟨pairs, pairs', q, rfl, hsole', hrefreshed, hq, hnew, hleft, -⟩ :=
    hsole.refresh (GuestView.stays_all _) trivial hfits'
  have hheaded := hrefreshed.headed hsole hsole' hq hnew
  have hlaid : Sole config map u.cpu.view (· ∈ pairs') u.cpu.store := by
    rw [hcpu]
    exact hsole'
  have hdue' : u.asked.limit ≤ u.asked.cycle := by
    rw [hasked]
    exact hdue
  have hattends : u.Attends := by
    refine attends_new hlaid (hsite'.trans hleft) hdue' ?_
    rw [hcpu]
    exact hheaded
  refine henters.idles.attends (.later hstep ⟨again.2, ?_⟩ hattends)
  rw [hasked, henters.asked]

omit hdue in
theorem restores (hhead : s.cpu.store.code.HeadAt p.left .breakpoint opened checked none)
    (hgone : s.asked.breakpoints[opened]? = none) {native : CodePtr}
    (hlookup : s.cpu.store.lookup opened = some native) :
    ∃ q t u, P q ∧ native = q.left.toUInt32 ∧ Idles s t ∧ t.step = .next u ∧
      u.site = q.left.toUInt32 ∧ u.machine.Ready ∧ u.cpu = u.asked ∧
      u.asked = { s.asked with store := s.cpu.store.restoreBoundary opened native } ∧
      Sole config map u.cpu.view P u.cpu.store ∧
      u.cpu.store.code.HeadAt q.left .boundary opened opened none := by
  have hlinked := (matching config _ _ map).linked hsole
  obtain ⟨t, hcalls⟩ := at_breakpoint hlinked.roomLeft hsite hlinked.gatesLeft hhead
  have hserved : t.served .breakpoint = .ofOutcome (s.asked.hitBreakpoint opened) := by
    rw [← hcalls.asked, ← hcalls.first]
    rfl
  rw [Cpu.hitBreakpoint_stale hgone hlookup] at hserved
  obtain ⟨u, hserve, hsite', hcpu, hasked, hready⟩ := lands hserved
  obtain ⟨q, hq, rfl, -, -⟩ := hsole.lookup hlookup
  have hpatched := CodeStore.restoreBoundary_spec (hsole.within hq) opened
  refine ⟨q, t, u, hq, rfl, hcalls.idles, hcalls.step.trans hserve, hsite', hready,
    hcpu.trans hasked.symm, hasked, ?_, ?_⟩
  · rw [hcpu]
    exact hsole.restored hq hlookup
  · rw [hcpu]
    exact hpatched.head

theorem attends_called
    (hhead : s.cpu.store.code.HeadAt p.left .breakpoint opened checked none)
    (hfound : opened &&& 1 = 0 → (s.cpu.store.lookup opened).isSome = true) : s.Attends := by
  have hlinked := (matching config _ _ map).linked hsole
  obtain ⟨t, henters⟩ := at_breakpoint hlinked.roomLeft hsite hlinked.gatesLeft hhead
  cases hbreakpoint : s.asked.breakpoints[opened]? with
  | some breakpoint => exact attends_breakpoint henters.toEnters hbreakpoint hdue
  | none =>
    cases hlookup : s.cpu.store.lookup opened with
    | some native =>
      obtain ⟨q, t, u, hq, rfl, hidles, hstep, hsite', -, -, hasked, hsole', hhead'⟩ :=
        restores hsole hsite hhead hbreakpoint hlookup
      have hattends : u.Attends := by
        refine attends_boundary hsole' hsite' ?_ hhead'
        rw [hasked]
        exact hdue
      refine hidles.attends (.later hstep
        ⟨s.cpu.store.restoreBoundary opened q.left.toUInt32, ?_⟩ hattends)
      rw [hasked, hidles.asked]
    | none =>
      rw [hlookup] at hfound
      have hodd : ¬opened &&& 1 = 0 := fun heven => Bool.noConfusion (hfound heven)
      have hserved : t.served .breakpoint = .ofOutcome (t.asked.hitBreakpoint opened) := by
        rw [← henters.first]
        rfl
      rw [henters.asked, Cpu.hitBreakpoint_missing hbreakpoint hlookup, Cpu.resolve,
        if_neg hodd, ← henters.asked] at hserved
      exact henters.idles.attends (.faults henters.step hserved)

end

/-- At the head of a unit with the limit reached. -/
theorem attends_of_due {P : Pair → Prop} {p : Pair}
    (hsole : Sole config map s.cpu.view P s.cpu.store) (honward : Onward P s.cpu.store) (hp : P p)
    (hsite : s.site = p.left.toUInt32) (hdue : s.asked.limit ≤ s.asked.cycle)
    (hfits : ∀ u, ReflTransGen Advances s u → u.cpu.Fits) : s.Attends := by
  -- there is only so much code behind an entry
  induction hrest : s.cpu.store.code.ops.size - p.left using Nat.strongRecOn generalizing s p with
  | ind rest ih =>
    rcases honward p hp with ⟨kind, opened, checked, hhead, hfound⟩ | ⟨q, hq, hlt, hjump⟩
    · cases kind with
      | boundary => exact attends_boundary hsole hsite hdue hhead
      | redirected => exact attends_redirected hsole hsite hdue hhead hfits
      | breakpoint => exact attends_called hsole hsite hdue hhead (hfound rfl)
    · have hwithin := hsole.within hq
      have hgoto : Idles s (s.goto q.left.toUInt32) :=
        .goto (step_jumpsTo hwithin.2 hsite hjump)
      refine hgoto.attends (ih (s.cpu.store.code.ops.size - q.left) (by omega) hsole honward hq rfl
        hdue (fun u hu => hfits u (hgoto.path.trans hu)) rfl)

/-- The code of an instruction begins at the site of a session, or that of an address where there is
none. -/
def AtBoundary (s : Session) : Prop :=
  (∃ address, (s.site, address) ∈ s.cpu.store.entries.origins) ∨
    ∃ x, s.cpu.store.lookup x = some s.site

end Session

theorem Cpu.IsNew.attends {cpu : Cpu} {config : Config} {memory : MemoryMap}
    (hnew : cpu.IsNew config memory) {allowed : Operation → Prop} {s : Session}
    (hpath : ReflTransGen (Moment.Next allowed) (.idle cpu) (.running s))
    (hfits : ∀ t, ReflTransGen Session.Advances s t → t.cpu.Fits) (hboundary : s.AtBoundary)
    (hdue : s.asked.IsDue) : s.Attends := by
  obtain ⟨P, htracks⟩ := hnew.tracks (Steady.onward config memory).upkeep
    (fun _ hp => absurd hp not_false) (fun _ _ => trivial) hpath (hfits s .refl) cpu.registers
  obtain ⟨hsole, honward⟩ : Sole config memory s.cpu.view P s.cpu.store ∧ Onward P s.cpu.store :=
    htracks.sole
  obtain ⟨p, hp, hsite⟩ : ∃ p, P p ∧ s.site = p.left.toUInt32 := by
    rcases hboundary with ⟨address, hrecorded⟩ | ⟨x, hlookup⟩
    · obtain ⟨-, pieces, hmatched, rfl⟩ := hsole
      obtain ⟨piece, hpiece, inst, -, heq⟩ := hmatched.left.recorded _ hrecorded
      exact ⟨piece.toPair, List.mem_map_of_mem hpiece, congrArg Prod.fst heq⟩
    · obtain ⟨q, hq, hsite, -, -⟩ := hsole.lookup hlookup
      exact ⟨q, hq, hsite⟩
  have htimely : s.asked.Timely := hnew.timely hpath (hfits s .refl)
  exact Session.attends_of_due hsole honward hp hsite
    (UInt32.le_trans htimely (Cpu.dueLimit_le hdue)) hfits

/-- Nothing that is due is missed. All through the runs of a processor, whatever was done with it
before, the limit that code compares the clock with is at most what it should be; and where the code
of an instruction begins and something is due, that is looked at before any instruction is executed.
-/
theorem due_events_attended {cpu : Cpu} {config : Config} {memory : MemoryMap}
    (hnew : cpu.IsNew config memory) {s : Session}
    (hpath : ReflTransGen (Moment.Next fun _ => True) (.idle cpu) (.running s))
    (hfits : ∀ t, ReflTransGen Session.Advances s t → t.cpu.Fits) :
    s.asked.limit ≤ s.asked.dueLimit ∧ (s.AtBoundary → s.asked.IsDue → s.Attends) :=
  ⟨hnew.timely hpath (hfits s .refl), hnew.attends hpath hfits⟩

/-- The end of a run is reached where an instruction begins that was compiled again. -/
theorem due_events_attended_renewing :
    ∃ s : Session, s.asked.target ≤ s.asked.cycle ∧ s.AtBoundary ∧
      s.cpu.store.counters.recompiled = 2 ∧ s.Attends := by
  obtain ⟨last, hruns, hroom, -⟩ := Cpu.renewing_runsTo
  obtain ⟨r, s, hbegin, hpath, horigin, htarget, -, hrecompiled⟩ := Cpu.renewing_boundary
  have hthrough := hruns.throughout hroom.native hroom.fits fun _ _ => Cpu.Grows.fits
  have hstart : Moment.Next (fun _ => True) (.idle (.renewing .default)) _ := .begin _ 26
  rw [hbegin] at hstart
  have hreached : ReflTransGen (Moment.Next fun _ => True) _ (.running s) :=
    .head (.operate _ (.setD 0 0x7201) True.intro)
      (.head hstart (Session.moments_of_advances _ hpath))
  have hboundary : s.AtBoundary := .inl ⟨0, horigin⟩
  obtain ⟨-, hattends⟩ := due_events_attended (Cpu.isNew_program (by decide) rfl) hreached
    fun t ht => t.grows_step.fits (hthrough.2 r hbegin t (hpath.trans ht))
  exact ⟨s, htarget, hboundary, hrecompiled, hattends hboundary (.inl htarget)⟩

end Dynarec68k
