import Dynarec68k.Proofs.MatchedProcessors

namespace Dynarec68k

open Host Relation

variable {config : Config} {view view' : GuestView} {map memory : MemoryMap}
  {allowed allowed' : Operation → Prop} {P : Pair → Prop} {ok : UInt32 → Prop}

/-- The code of a processor is laid out and linked. -/
def Sole (config : Config) (map : MemoryMap) (view : GuestView) (P : Pair → Prop)
    (s : CodeStore) : Prop :=
  Paired config config.registerAssignment config.registerAssignment map view P s s

/-- Units that are compiled at the addresses `ok`: what memory holds there. At the address `again`
an instruction is compiled even where nothing can be executed. -/
def GuestView.Fresh (view : GuestView) (ok : UInt32 → Prop) (again : Option UInt32)
    (part : CodeUnit) : Prop :=
  ok part.address ∧ (part = view.unitAt part.address ∨
    again = some part.address ∧ part = .instruction (view.instructionAt part.address))

theorem GuestView.Similar.unitAt (h : view.Similar view') (x : UInt32) :
    view'.instructionAt x = view.instructionAt x ∧ view'.unitAt x = view.unitAt x := by
  have hinst : view'.instructionAt x = view.instructionAt x := by
    rw [instructionAt, instructionAt, h.config, h.memory.fetchWords]
  refine ⟨hinst, ?_⟩
  rw [GuestView.unitAt, GuestView.unitAt, hinst, h.memory.shape.isExecutable]

theorem GuestView.Fresh.similar {again : Option UInt32} {part : CodeUnit}
    (h : view.Fresh ok again part) (hsimilar : view.Similar view') : view'.Fresh ok again part := by
  obtain ⟨hinst, hunit⟩ := hsimilar.unitAt part.address
  rw [GuestView.Fresh, hinst, hunit]
  exact h

/-- An instruction was compiled again, and its old entry leads to the new code. -/
def Refreshed (view : GuestView) (ok : UInt32 → Prop) (x : UInt32) (pairs : List Pair)
    (s : CodeStore) (pairs' : List Pair) (s' : CodeStore) : Prop :=
  ∃ (q : Pair) (r : CodeStore), q ∈ pairs' ∧ q.left = s.code.ops.size ∧
    q.unit = .instruction (view.instructionAt (view.canonical x)) ∧
    Grown view (view.Fresh ok (some (view.canonical x))) (some (view.canonical x >>> 1)) pairs s
      pairs' r ∧
    (s.lookup (view.canonical x) = none ∧ s' = r ∨
      ∃ p ∈ pairs, s.lookup (view.canonical x) = some p.left.toUInt32 ∧
        ∃ kind opened checked, Patched p.left kind opened checked (some q.left) r s')

/-- A unit was compiled just now. Where units have even addresses, it is also entered. -/
structure Entered (ok : UInt32 → Prop) (view : GuestView) (s : CodeStore) (p : Pair) : Prop where
  fresh : ∃ again, view.Fresh ok again p.unit
  found : (∀ x, ok x → x &&& 1 = 0) → s.lookup p.unit.address = some p.left.toUInt32

theorem Grown.enters {again replaced : Option UInt32} {pairs pairs' : List Pair} {s s' : CodeStore}
    (h : Grown view (view.Fresh ok again) replaced pairs s pairs' s') (p : Pair) (hp : p ∈ pairs') :
    p ∈ pairs ∨ Entered ok view s' p := by
  rcases h.added p hp with hold | ⟨hfresh, -⟩
  · exact .inl hold
  · by_cases heven : ∀ x, ok x → x &&& 1 = 0
    · exact (h.entered (fun u hu => heven _ hu.1) p hp).imp_right fun hlookup =>
        ⟨⟨again, hfresh⟩, fun _ => hlookup⟩
    · exact .inr ⟨⟨again, hfresh⟩, fun hall => absurd hall heven⟩

namespace Sole

variable
  {s : CodeStore}

theorem assign_eq (h : Sole config map view P s) :
    view.assign config.registerAssignment = view := by
  rw [← h.fixed.config]
  rfl

theorem locate (h : Sole config map view P s) (hstays : view.Stays ok) {x : UInt32}
    (hx : ok (map.canonical x)) (hfits : (s.locate view x).2.Fits) :
    ∃ (pairs pairs' : List Pair) (q : Pair), P = (· ∈ pairs) ∧
      Sole config map view (· ∈ pairs') (s.locate view x).2 ∧
      Grown view (view.Fresh ok none) none pairs s pairs' (s.locate view x).2 ∧ q ∈ pairs' ∧
      q.unit.address >>> 1 = map.canonical x >>> 1 ∧
      (s.locate view x).1 = q.left.toUInt32 ∧ (s.locate view x).1 = q.right.toUInt32 := by
  have hassign := h.assign_eq
  obtain ⟨hfixed, pieces, hmatched, rfl⟩ := h
  rw [← hassign] at hfits
  rw [← hfixed.canonical] at hx
  have hfresh (y : UInt32) (hy : ok y) : view.Fresh ok none (view.unitAt y) := by
    rw [GuestView.Fresh, view.unitAt_address]
    exact ⟨hy, .inl rfl⟩
  obtain ⟨pieces', q, hmatched', hgrown, hq, hword, hleft, hright⟩ :=
    hmatched.locate (hfixed.compiling hstays hfresh) hx rfl rfl hfits hfits
  rw [hassign] at hmatched' hgrown hleft hright
  rw [hfixed.canonical] at hword
  exact ⟨_, _, q, rfl, ⟨hfixed, pieces', hmatched', rfl⟩, hgrown, hq, hword, hleft, hright⟩

theorem refresh (h : Sole config map view P s) (hstays : view.Stays ok) {x : UInt32}
    (hx : ok (map.canonical x)) (hfits : (s.refresh view x).2.Fits) :
    ∃ (pairs pairs' : List Pair) (q : Pair), P = (· ∈ pairs) ∧
      Sole config map view (· ∈ pairs') (s.refresh view x).2 ∧
      Refreshed view ok x pairs s pairs' (s.refresh view x).2 ∧ q ∈ pairs' ∧
      q.left = s.code.ops.size ∧ (s.refresh view x).1 = q.left.toUInt32 ∧
      (s.refresh view x).1 = q.right.toUInt32 := by
  have hassign := h.assign_eq
  obtain ⟨hfixed, pieces, hmatched, rfl⟩ := h
  rw [← hassign] at hfits
  rw [← hfixed.canonical] at hx
  have hfresh (y : UInt32) (hy : ok y) :
      view.Fresh ok (some (view.canonical x)) (view.unitAt y) := by
    rw [GuestView.Fresh, view.unitAt_address]
    exact ⟨hy, .inl rfl⟩
  have hagain : view.Fresh ok (some (view.canonical x))
      (.instruction (view.instructionAt (view.canonical x))) := by
    rw [GuestView.Fresh, CodeUnit.address, view.instructionAt_address]
    exact ⟨hx, .inr ⟨rfl, rfl⟩⟩
  obtain ⟨hleft, hright, pieces', r, hmatched', hgrown, hq, hmoved⟩ :=
    hmatched.refresh (hfixed.compiling hstays hfresh) hx hagain rfl rfl hfits hfits
  rw [hassign] at hmatched' hleft hright hmoved
  refine ⟨_, _, _, rfl, ⟨hfixed, pieces', hmatched', rfl⟩, ⟨_, r, hq, rfl, rfl, hgrown, ?_⟩, hq,
    rfl, hleft, hright⟩
  rcases hmoved with hnone | ⟨p, -, hp, hlookup, hpatched⟩
  · exact .inl hnone
  · exact .inr ⟨p.toPair, hp, hlookup, hpatched⟩

end Sole

/-- What else is known of compiled code, kept by all that runs do to it and by the operations that
are allowed between them. -/
structure Upkeep (config : Config) (map : MemoryMap) (allowed : Operation → Prop) where
  /-- Where code is compiled. -/
  ok : UInt32 → Prop
  Inv : GuestView → (Pair → Prop) → CodeStore → Prop
  stays : ∀ {view : GuestView}, view.Fixed config map → view.Stays ok
  even : ∀ {x : UInt32}, x &&& 1 = 0 → ok (map.canonical x)
  opened : ∀ {view P s p x checked}, Sole config map view P s → Inv view P s → P p →
    s.code.HeadAt p.left .redirected x checked none → ok (map.canonical x)
  similar : ∀ {view view' P s}, Inv view P s → view.Similar view' → Inv view' P s
  write : ∀ {view P s} x w, Sole config map view P s → Inv view P s →
    Inv (view.with (view.memory.write x w).2) P
      (s.noteWrite config ((view.memory.write x w).2.canonical x) w.bytes)
  locate : ∀ {view pairs s pairs'} x, ok (map.canonical x) → Sole config map view (· ∈ pairs) s →
    Inv view (· ∈ pairs) s → Sole config map view (· ∈ pairs') (s.locate view x).2 →
    Grown view (view.Fresh ok none) none pairs s pairs' (s.locate view x).2 →
    Inv view (· ∈ pairs') (s.locate view x).2
  refresh : ∀ {view pairs s pairs' p checked} x, p ∈ pairs →
    s.code.HeadAt p.left .redirected x checked none → Sole config map view (· ∈ pairs) s →
    Inv view (· ∈ pairs) s → Sole config map view (· ∈ pairs') (s.refresh view x).2 →
    Refreshed view ok x pairs s pairs' (s.refresh view x).2 →
    Inv view (· ∈ pairs') (s.refresh view x).2
  stale : ∀ {view P s p x checked q}, Sole config map view P s → Inv view P s → P p →
    s.code.HeadAt p.left .breakpoint x checked none → view.hasBreakpoint x = false → P q →
    s.lookup x = some q.left.toUInt32 → Inv view P (s.restoreBoundary x q.left.toUInt32)
  invalidate : ∀ {view P s} start stop, allowed (.invalidate start stop) →
    Sole config map view P s → Inv view P s →
    Inv view P (s.redirectRange config view.canonical start stop)
  selectBank : ∀ {view P s first stop memory} start bank, allowed (.selectBank start bank) →
    view.memory.selectBank start bank = .ok (some (first, stop), memory) →
    Sole config map view P s → Inv view P s →
    Inv (view.with memory) P (s.redirectRange config memory.canonical first stop)
  insertBreakpoint : ∀ {view P s has} address answers,
    allowed (.insertBreakpoint address answers) →
    (∀ x, has x = (view.canonical address == x || view.hasBreakpoint x)) →
    Sole config map view P s → Inv view P s →
    Inv { view with hasBreakpoint := has } P (s.placeBreakpoint (view.canonical address))
  removeBreakpoint : ∀ {view P s has} address, allowed (.removeBreakpoint address) →
    (∀ x, has x = (!(view.canonical address == x) && view.hasBreakpoint x)) →
    Sole config map view P s → Inv view P s →
    Inv { view with hasBreakpoint := has } P (s.liftBreakpoint (view.canonical address))
  changeMemory : ∀ {view P s} change shape, allowed (.changeMemory change shape) →
    Sole config map view P s → Inv view P s → Inv (view.with (change view.memory)) P s

/-- Nothing more than that code is laid out and linked. -/
def Upkeep.trivial (config : Config) (map : MemoryMap) : Upkeep config map fun _ => True where
  ok _ := True
  Inv _ _ _ := True
  stays _ := GuestView.stays_all _
  even _ := True.intro
  opened _ _ _ _ := True.intro
  similar _ _ := True.intro
  write _ _ _ _ := True.intro
  locate _ _ _ _ _ _ := True.intro
  refresh _ _ _ _ _ _ _ := True.intro
  stale _ _ _ _ _ _ _ := True.intro
  invalidate _ _ _ _ _ := True.intro
  selectBank _ _ _ _ _ _ := True.intro
  insertBreakpoint _ _ _ _ _ _ := True.intro
  removeBreakpoint _ _ _ _ _ := True.intro
  changeMemory _ _ _ _ _ := True.intro

section

/-- A processor and no other. -/
def alone (U : Upkeep config map allowed) : Coupling where
  config := config
  left := config.registerAssignment
  right := config.registerAssignment
  Rel view P s t := t = s ∧ Sole config map view P s ∧ U.Inv view P s
  New := Entered U.ok
  new_similar h hsimilar := ⟨h.fresh.imp fun _ hfresh => hfresh.similar hsimilar, h.found⟩
  config_eq h := h.2.1.fixed.config
  linked := by
    rintro view P s t ⟨rfl, hsole, -⟩
    exact (matching config _ _ map).linked hsole
  similar := by
    rintro view view' P s t ⟨rfl, hsole, hinv⟩ hsimilar
    exact ⟨rfl, (matching config _ _ map).similar hsole hsimilar, U.similar hinv hsimilar⟩
  write := by
    rintro view P s t x w ⟨rfl, hsole, hinv⟩
    exact ⟨rfl, (matching config _ _ map).write x w hsole, U.write x w hsole hinv⟩
  locate := by
    rintro view P s t x ⟨rfl, hsole, hinv⟩ heven hfits -
    rw [hsole.assign_eq] at hfits ⊢
    obtain ⟨pairs, pairs', q, rfl, hsole', hgrown, hq, -, hleft, hright⟩ :=
      hsole.locate (U.stays hsole.fixed) (U.even heven) hfits
    exact ⟨_, q, hgrown.keeps, hgrown.enters, hq, hleft, hright, rfl, hsole',
      U.locate x (U.even heven) hsole hinv hsole' hgrown⟩
  refresh := by
    rintro view P s t p x checked ⟨rfl, hsole, hinv⟩ hp hhead hfits -
    rw [hsole.assign_eq] at hfits ⊢
    obtain ⟨pairs, pairs', q, rfl, hsole', hrefreshed, hq, -, hleft, hright⟩ :=
      hsole.refresh (U.stays hsole.fixed) (U.opened hsole hinv hp hhead) hfits
    have hinv' := U.refresh x hp hhead hsole hinv hsole' hrefreshed
    obtain ⟨n, r, -, -, -, hgrown, hmoved⟩ := hrefreshed
    refine ⟨_, q, hgrown.keeps, fun p hp => ?_, hq, hleft, hright, rfl, hsole', hinv'⟩
    have hentries : (t.refresh view x).2.entries = r.entries := by
      rcases hmoved with ⟨-, heq⟩ | ⟨p, -, -, kind, opened, checked, hpatched⟩
      · rw [heq]
      · exact hpatched.entries
    refine (hgrown.enters p hp).imp_right fun hnew => ⟨hnew.fresh, fun heven => ?_⟩
    rw [CodeStore.lookup, hentries]
    exact hnew.found heven
  stale := by
    rintro view P s t p x checked ⟨rfl, hsole, hinv⟩ hp hhead hbreakpoint
    rcases (matching config _ _ map).stale hsole hp hhead hbreakpoint with
      hnone | ⟨q, hq, hleft, hright, hsole'⟩
    · exact .inl hnone
    · have hsame : q.left.toUInt32 = q.right.toUInt32 := Option.some.inj (hleft.symm.trans hright)
      rw [← hsame] at hsole'
      exact .inr ⟨q, hq, hleft, hright, congrArg _ hsame.symm, hsole',
        U.stale hsole hinv hp hhead hbreakpoint hq hleft⟩

variable {U : Upkeep config map allowed}

theorem serviced_alone : (alone U).Serviced allowed := by
  have hmatching := serviced_matching config config.registerAssignment config.registerAssignment
    map
  refine ⟨?_, ?_, ?_, ?_, ?_⟩
  · rintro view P s t start stop hallowed ⟨rfl, hsole, hinv⟩
    exact ⟨rfl, hmatching.invalidate start stop trivial hsole,
      U.invalidate start stop hallowed hsole hinv⟩
  · rintro view P s t first stop memory start bank hallowed hbank ⟨rfl, hsole, hinv⟩
    exact ⟨rfl, hmatching.selectBank start bank trivial hbank hsole,
      U.selectBank start bank hallowed hbank hsole hinv⟩
  · rintro view P s t has address answers hallowed hhas ⟨rfl, hsole, hinv⟩
    exact ⟨rfl, hmatching.insertBreakpoint address answers trivial hhas hsole,
      U.insertBreakpoint address answers hallowed hhas hsole hinv⟩
  · rintro view P s t has address hallowed hhas ⟨rfl, hsole, hinv⟩
    exact ⟨rfl, hmatching.removeBreakpoint address trivial hhas hsole,
      U.removeBreakpoint address hallowed hhas hsole hinv⟩
  · rintro view P s t change shape hallowed ⟨rfl, hsole, hinv⟩
    exact ⟨rfl, hmatching.changeMemory change shape trivial hsole,
      U.changeMemory change shape hallowed hsole hinv⟩

theorem oneSided_alone : (alone U).OneSided := by
  rintro view P s t ⟨rfl, -⟩ x
  exact ⟨id, id⟩

theorem fit_alone {x y : Cpu} (hfits : x.Fits) : (alone U).Fit x y :=
  ⟨hfits, .inl oneSided_alone⟩

theorem twins_alone {x : Cpu} (hsole : Sole config map x.view P x.store)
    (hinv : U.Inv x.view P x.store) : (alone U).Twins P x x := by
  have hconfig : x.config = config := hsole.fixed.config
  have hself : x = x.twin config.registerAssignment x.store := by
    rw [Cpu.twin, ← hconfig]
    rfl
  exact ⟨x, x.store, x.store, hself, hself, rfl, hsole, hinv⟩

theorem twins_alone_iff {x : Cpu} :
    (∃ y, (alone U).Twins P x y) ↔
      Sole config map x.view P x.store ∧ U.Inv x.view P x.store := by
  constructor
  · rintro ⟨y, c, s, t, rfl, -, rfl, hsole, hinv⟩
    have hview : (c.twin config.registerAssignment t).view = c.view := hsole.assign_eq
    exact ⟨hview ▸ hsole, hview ▸ hinv⟩
  · rintro ⟨hsole, hinv⟩
    exact ⟨x, twins_alone hsole hinv⟩

end

def Watch.off (file : RegisterFile) : Watch where
  file := file
  since := none
  user h := absurd rfl h

theorem Watch.sees_off (file file' : RegisterFile) (cpu : Cpu) :
    (Watch.off file).Sees cpu file' where
  past _ h := absurd h (Option.some_ne_none _).symm
  kept h := absurd (of_decide_eq_true h) (Option.some_ne_none _).symm

/-- What a watch sees between runs is not lost by operations. -/
def Watch.Outlasts (w : Watch) (allowed : Operation → Prop) : Prop :=
  ∀ cpu operation, allowed operation → w.Sees cpu cpu.registers →
    w.Sees (operation.apply cpu) (operation.apply cpu).registers

namespace Coupling

variable
  {U : Upkeep config map allowed} {w : Watch} {m m' : Moment}

/-- At the next moment of an execution a processor is still known, as long as its code fits. No step
of a run is a fault. -/
theorem Tracks.next (h : (alone U).Tracks w P m) (hallowed : ∀ o, allowed' o → allowed o)
    (hnext : Moment.Next allowed' m m') (hfits : m'.cpu.Fits)
    (hsees : w.Outlasts allowed') :
    ∃ P' : Pair → Prop, (alone U).Adds P P' m'.cpu ∧ (alone U).Tracks w P' m' := by
  cases hnext with
  | operate cpu operation hoperation =>
    obtain ⟨⟨y, htwins⟩, hwatched⟩ := h
    exact ⟨P, .refl _, ⟨_, htwins.operate serviced_alone (hallowed _ hoperation)⟩,
      hsees cpu operation hoperation hwatched⟩
  | begin cpu target =>
    rw [Step.moment_cpu] at hfits ⊢
    obtain ⟨P', hadds, htracks, -⟩ := h.begin oneSided_alone target hfits
    exact ⟨P', hadds, htracks⟩
  | step session =>
    rw [Step.moment_cpu] at hfits ⊢
    obtain ⟨P', hadds, htracks, -⟩ := h.step oneSided_alone hfits
    exact ⟨P', hadds, htracks⟩
  | overfull session hroom hfull => exact h.overfull oneSided_alone hroom hfull hfits

theorem Tracks.moments (h : (alone U).Tracks w P m) (hallowed : ∀ o, allowed' o → allowed o)
    (hpath : ReflTransGen (Moment.Next allowed') m m') (hfits : m'.cpu.Fits)
    (hsees : w.Outlasts allowed') :
    ∃ P' : Pair → Prop, (∀ p, P p → P' p) ∧ (alone U).Tracks w P' m' := by
  induction hpath with
  | refl => exact ⟨P, fun _ hp => hp, h⟩
  | @tail m₁ m₂ _ hnext ih =>
    have hgrows : Cpu.Grows m₁.cpu m₂.cpu := Moment.Next.grows (.single hnext)
    obtain ⟨P₁, hmono, htracks⟩ := ih (hgrows.fits hfits)
    obtain ⟨P₂, hadds, htracks'⟩ := htracks.next hallowed hnext hfits hsees
    exact ⟨P₂, fun p hp => hadds.keeps p (hmono p hp), htracks'⟩

end Coupling

theorem Coupling.Tracks.sole {U : Upkeep config map allowed} {w : Watch} {m : Moment}
    (h : (alone U).Tracks w P m) :
    Sole config map m.cpu.view P m.cpu.store ∧ U.Inv m.cpu.view P m.cpu.store := by
  cases m with
  | idle cpu => exact twins_alone_iff.mp h.1
  | running s => exact twins_alone_iff.mp h.1.twins

theorem Cpu.IsNew.tracked {cpu : Cpu} (hnew : cpu.IsNew config memory)
    (U : Upkeep config memory allowed) (hinitial : U.Inv cpu.view (fun _ => False) .initial)
    (file : RegisterFile) : (alone U).Tracks (.off file) (fun _ => False) (.idle cpu) := by
  have hfresh := hnew.eq_fresh.2
  have hsole : Sole config memory cpu.view (fun _ => False) cpu.store := by
    rw [hfresh]
    refine ⟨⟨rfl, hnew.sound, .refl _⟩, [], Matched.initial _ _ _ _, ?_⟩
    funext p
    exact (eq_false List.not_mem_nil).symm
  have hstore : cpu.store = .initial := by
    rw [hfresh]
    rfl
  exact ⟨twins_alone_iff.mpr ⟨hsole, hstore ▸ hinitial⟩, Watch.sees_off _ _ _⟩

theorem Cpu.IsNew.tracks {cpu : Cpu} (hnew : cpu.IsNew config memory)
    (U : Upkeep config memory allowed) (hinitial : U.Inv cpu.view (fun _ => False) .initial)
    (hallowed : ∀ o, allowed' o → allowed o) {m : Moment}
    (hpath : ReflTransGen (Moment.Next allowed') (.idle cpu) m) (hfits : m.cpu.Fits)
    (file : RegisterFile) : ∃ P : Pair → Prop, (alone U).Tracks (.off file) P m := by
  obtain ⟨P, -, htracks⟩ := (hnew.tracked U hinitial file).moments hallowed hpath hfits
    fun _ _ _ _ => Watch.sees_off _ _ _
  exact ⟨P, htracks⟩

namespace Moment

/-- The processor with its registers as they are at a moment. -/
def guest : Moment → Cpu
  | idle cpu => cpu
  | running session => session.asked

/-- No instruction is half done: the processor is idle, or the code of an instruction begins at the
site of its run. -/
def AtInstruction : Moment → Prop
  | idle _ => True
  | running session => ∃ address, (session.site, address) ∈ session.cpu.store.entries.origins

theorem guest_counters (m : Moment) : m.guest.counters = m.cpu.counters := by
  cases m <;> rfl

end Moment

namespace Coupling

variable
  {U : Upkeep config map allowed} {w w' : Watch}

theorem Holds.head {s : Session} (h : (alone U).Holds w P s)
    {address : UInt32} (hrecorded : (s.site, address) ∈ s.cpu.store.entries.origins) :
    s.machine.Ready ∧ ∃ (p : Pair) (inst : Instruction), P p ∧ s.site = p.left.toUInt32 ∧
      p.unit = .instruction inst ∧ inst.address = address := by
  obtain ⟨⟨-, pieces, hmatched, rfl⟩, -⟩ := twins_alone_iff.mp h.twins
  obtain ⟨p, hp, inst, hunit, heq⟩ := hmatched.left.recorded _ hrecorded
  obtain ⟨hsite, haddress⟩ := Prod.mk.inj heq
  refine ⟨h.clear.resolve_right fun hgate => ?_, p.toPair, inst, List.mem_map_of_mem hp, hsite,
    hunit, haddress.symm⟩
  have habove := hmatched.left.above p hp
  have hroom := hmatched.left.room
  have hwithin := hmatched.left.within p hp
  have hlt : p.left < 2 ^ 32 := by omega
  rw [hsite, UInt32.toNat_ofNat_of_lt' hlt] at hgate
  omega

theorem Tracks.rewatch {m : Moment} (h : (alone U).Tracks w P m) (hboundary : m.AtInstruction)
    (hsees : w'.Sees m.cpu m.guest.registers) : (alone U).Tracks w' P m := by
  cases m with
  | idle cpu => exact ⟨h.1, hsees⟩
  | running s =>
    obtain ⟨address, hrecorded⟩ := hboundary
    obtain ⟨hholds, -⟩ := h
    obtain ⟨hready, p, -, hp, hsite, -⟩ := hholds.head hrecorded
    have hsees' : w'.Sees s.cpu s.machine.file := hsees.change (Nat.le_refl _) fun _ _ k hk =>
      (s.cpu.config.registerAssignment.spill_kept s.machine hk).symm
    obtain ⟨y, htwins⟩ := hholds.twins
    -- the other one stands where the unit is on the right, with the same host
    have hmeets : (alone U).Meets w' P s ⟨y, s.machine, p.right.toUInt32⟩ :=
      .head htwins hsees' hp hsite rfl ⟨by decide, rfl, fun _ _ => rfl, rfl, rfl, hready, hready⟩
    exact ⟨hmeets.holds, _, .meet .refl hmeets⟩

end Coupling

end Dynarec68k
