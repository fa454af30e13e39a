import Dynarec68k.Proofs.CoupledExecutions

namespace Dynarec68k

open Host Relation MemoryMap

variable {config : Config} {cpu last x y : Cpu} {view view' : GuestView} {map memory : MemoryMap}
  {a b : RegisterAssignment}

namespace Matched

variable {leads : UInt32 → UInt32 → Prop}
  {pieces : List Piece} {s t : CodeStore}

theorem body_placed {site : Piece → Nat} (h : Laid config site pieces s) {p : Piece}
    (hp : p ∈ pieces) (i : Nat) (item : Item) (hitem : (p.unit.body config)[i]? = some item) :
    s.code.Holds (site p + 4 + i) item := by
  obtain ⟨hi, -⟩ := List.getElem?_eq_some_iff.mp hitem
  refine h.placed p hp i item ?_
  rw [Piece.rest, List.getElem?_append_left hi, hitem]

theorem linked (h : Matched view a b leads none pieces [] s t) :
    Linked view.config a b (· ∈ pieces.map Piece.toPair) s t where
  roomLeft := h.left.room
  roomRight := h.right.room
  endless := h.endless
  gatesLeft := h.left.gates
  gatesRight := h.right.gates
  pairs := by
    rintro q hq
    obtain ⟨p, hp, rfl⟩ := List.mem_map.mp hq
    have hshaped := h.shaped p hp
    have hlinks : ∀ e ∈ p.jumps view.config a b, ∃ q ∈ pieces.map Piece.toPair,
        s.code.JumpsTo e.1.1 q.left ∧ t.code.JumpsTo e.2.1 q.right := by
      intro e he
      rcases h.links p hp e he with ⟨q, hq, -, hjumps⟩ | ⟨w, hw, -⟩
      · exact ⟨q, hq, hjumps⟩
      · exact absurd hw List.not_mem_nil
    rw [Piece.jumps_eq hshaped] at hlinks
    refine
      { shaped := hshaped
        heads := h.heads p hp
        bodyLeft := body_placed h.left hp
        bodyRight := body_placed h.right hp
        jumps := fun e he => hlinks e (List.mem_append_left _ he)
        tail := ?_
        originLeft := ?_
        originRight := ?_ }
    · intro hfalls
      cases htailed : p.tailed with
      | true =>
        obtain ⟨q, hq, hjump, hjump'⟩ := hlinks _ (List.mem_append_right _ (by
          rw [htailed]
          exact List.mem_singleton_self _))
        exact ⟨q, hq, .inr hjump, .inr hjump'⟩
      | false =>
        have hsize (config : Config) : p.size config = 4 + (p.unit.body config).length := by
          rw [Piece.size, Piece.rest, htailed]
          simp
        rcases h.tails p hp (by rw [Piece.falls, hfalls, htailed]; rfl) with
          ⟨q, hq, -, hleft, hright⟩ | ⟨hgap, -⟩
        · rw [hsize, ← Nat.add_assoc] at hleft hright
          exact ⟨q, hq, .inl hleft.symm, .inl hright.symm⟩
        · exact absurd hgap (by simp)
    · intro inst hunit i hi
      have horigin := h.left.origin p hp inst hunit (4 + i) (by omega)
      rwa [← Nat.add_assoc] at horigin
    · intro inst hunit i hi
      have horigin := h.right.origin p hp inst hunit (4 + i) (by omega)
      rwa [← Nat.add_assoc] at horigin

theorem review (h : Matched view a b leads none pieces [] s t)
    (hconfig : view'.config = view.config) : Matched view' a b leads none pieces [] s t := by
  obtain ⟨left, right, shaped, regions, endless, slots, heads, links, tails, pendingLeft,
    pendingRight, -, -⟩ := h
  rw [← hconfig] at left right links tails
  exact ⟨left, right, shaped, regions, endless, slots, heads, links, tails, pendingLeft,
    pendingRight, List.forall_mem_nil _, List.forall_mem_nil _⟩

theorem initial (view : GuestView) (a b : RegisterAssignment) (leads : UInt32 → UInt32 → Prop) :
    Matched view a b leads none [] [] .initial .initial := by
  have hlaid (config : Config) (site : Piece → Nat) : Laid config site [] .initial :=
    { cursor := rfl
      room := by decide
      based := Pages.based_empty _
      gates := fun i op hop => by
        rw [← hop]
        exact List.getElem?_toArray
      above := List.forall_mem_nil _
      within := List.forall_mem_nil _
      apart := .nil
      placed := List.forall_mem_nil _
      origin := List.forall_mem_nil _
      listed := List.forall_mem_nil _
      recorded := List.forall_mem_nil _ }
  refine ⟨hlaid _ _, hlaid _ _, ?_, rfl, rfl, ?_, ?_, ?_, ?_, rfl, rfl, ?_, ?_⟩
  · exact List.forall_mem_nil _
  · intro word
    have hempty : CodeStore.initial.entries.pages.slotAt word = none := by
      rw [Pages.slotAt, show CodeStore.initial.entries.pages = ∅ from rfl,
        Std.HashMap.getElem?_empty]
      rfl
    rw [hempty]
    exact .none
  · exact List.forall_mem_nil _
  · exact List.forall_mem_nil _
  · exact List.forall_mem_nil _
  · exact List.forall_mem_nil _
  · exact List.forall_mem_nil _

end Matched

/-- A view of a processor whose memory has the shape of a map that can be built. -/
structure GuestView.Fixed (view : GuestView) (config : Config) (map : MemoryMap) : Prop where
  config : view.config = config
  sound : view.memory.Sound
  shape : SameShape map view.memory

theorem GuestView.stays_all (view : GuestView) : view.Stays fun _ => True where
  falls _ _ := trivial
  jumps _ _ _ _ _ := trivial

namespace GuestView.Fixed

variable (h : view.Fixed config map)
include h

theorem congr (hconfig : view'.config = view.config)
    (hmemory : SameShape view.memory view'.memory) : view'.Fixed config map where
  config := hconfig.trans h.config
  sound := h.sound.congr hmemory
  shape := h.shape.trans hmemory

theorem canonical (x : UInt32) : view.canonical x = map.canonical x :=
  h.shape.canonical x

theorem settled : view.Settled :=
  h.sound.canonical_canonical

theorem leads : view.Leads fun x word => word = map.canonical x >>> 1 := by
  intro x
  rw [h.canonical]

theorem compiling {ok : UInt32 → Prop} {fresh : CodeUnit → Prop} (hstays : view.Stays ok)
    (hfresh : ∀ x, ok x → fresh (view.unitAt x)) :
    view.Compiling (fun x word => word = map.canonical x >>> 1) ok fresh :=
  ⟨h.leads, h.settled, hstays, hfresh⟩

theorem compiling_all : view.Compiling
    (fun x word => word = map.canonical x >>> 1) (fun _ => True) fun _ => True :=
  h.compiling view.stays_all fun _ _ => trivial

end GuestView.Fixed

/-- Stores with the same pieces, whose branches lead to code of the addresses they were made
for. -/
structure Paired (config : Config) (a b : RegisterAssignment) (map : MemoryMap)
    (view : GuestView) (P : Pair → Prop) (s t : CodeStore) : Prop where
  fixed : view.Fixed config map
  matched : ∃ pieces, Matched view a b (fun x word => word = map.canonical x >>> 1) none pieces [] s t ∧
    P = (· ∈ pieces.map Piece.toPair)

namespace Paired

variable {q : Pair}
 {P : Pair → Prop} {s t : CodeStore}
  (h : Paired config a b map view P s t)
include h

theorem patch {s' t' : CodeStore}
    (hpatch : ∀ {pieces}, Matched view a b (fun x word => word = map.canonical x >>> 1) none pieces [] s t →
      Matched view a b (fun x word => word = map.canonical x >>> 1) none pieces [] s' t') :
    Paired config a b map view P s' t' := by
  obtain ⟨hfixed, pieces, hmatched, hP⟩ := h
  exact ⟨hfixed, pieces, hpatch hmatched, hP⟩

theorem review (hconfig : view'.config = view.config)
    (hmemory : SameShape view.memory view'.memory) :
    Paired config a b map view' P s t := by
  obtain ⟨hfixed, pieces, hmatched, hP⟩ := h
  exact ⟨hfixed.congr hconfig hmemory, pieces, hmatched.review hconfig, hP⟩

theorem noteWrite (hmemory : SameShape view.memory memory) (address : UInt32)
    (bytes : Nat) :
    Paired config a b map (view.with memory) P (s.noteWrite config address bytes)
      (t.noteWrite config address bytes) := by
  have hreviewed : Paired config a b map (view.with memory) P s t := h.review rfl hmemory
  exact hreviewed.patch fun hmatched => (hmatched.noteWrite config address bytes).1

theorem locate (x : UInt32)
    (hs : (s.locate (view.assign a) x).2.Fits) (ht : (t.locate (view.assign b) x).2.Fits) :
    ∃ (P' : Pair → Prop) (q : Pair), (∀ p, P p → P' p) ∧ P' q ∧
      (s.locate (view.assign a) x).1 = q.left.toUInt32 ∧
      (t.locate (view.assign b) x).1 = q.right.toUInt32 ∧
      Paired config a b map view P' (s.locate (view.assign a) x).2
        (t.locate (view.assign b) x).2 := by
  obtain ⟨hfixed, pieces, hmatched, rfl⟩ := h
  obtain ⟨pieces', q, hmatched', hgrown, hq, -, hleft, hright⟩ :=
    hmatched.locate hfixed.compiling_all trivial rfl rfl hs ht
  exact ⟨_, q, hgrown.keeps, hq, hleft, hright, hfixed, pieces', hmatched', rfl⟩

theorem refresh (x : UInt32)
    (hs : (s.refresh (view.assign a) x).2.Fits) (ht : (t.refresh (view.assign b) x).2.Fits) :
    ∃ (P' : Pair → Prop) (q : Pair), (∀ p, P p → P' p) ∧ P' q ∧
      (s.refresh (view.assign a) x).1 = q.left.toUInt32 ∧
      (t.refresh (view.assign b) x).1 = q.right.toUInt32 ∧
      Paired config a b map view P' (s.refresh (view.assign a) x).2
        (t.refresh (view.assign b) x).2 := by
  obtain ⟨hfixed, pieces, hmatched, rfl⟩ := h
  obtain ⟨hleft, hright, pieces', r, hmatched', hgrown, hq, -⟩ :=
    hmatched.refresh hfixed.compiling_all trivial trivial rfl rfl hs ht
  exact ⟨_, _, hgrown.keeps, hq, hleft, hright, hfixed, pieces', hmatched', rfl⟩

theorem lookup (x : UInt32) :
    s.lookup x = none ∧ t.lookup x = none ∨
      ∃ q, P q ∧ s.lookup x = some q.left.toUInt32 ∧ t.lookup x = some q.right.toUInt32 := by
  obtain ⟨-, pieces, hmatched, rfl⟩ := h
  rcases hmatched.lookup x with hnone | ⟨q, hq, -, -, hs, ht⟩
  · exact .inl hnone
  · exact .inr ⟨q, hq, hs, ht⟩

theorem restoreBoundary (hq : P q) (x : UInt32) :
    Paired config a b map view P (s.restoreBoundary x q.left.toUInt32)
      (t.restoreBoundary x q.right.toUInt32) := by
  obtain ⟨hfixed, pieces, hmatched, rfl⟩ := h
  exact ⟨hfixed, pieces, hmatched.restoreBoundary hq x, rfl⟩

theorem setBreakpoint (hq : P q) (x : UInt32) :
    Paired config a b map view P (s.setBreakpoint x q.left.toUInt32)
      (t.setBreakpoint x q.right.toUInt32) := by
  obtain ⟨hfixed, pieces, hmatched, rfl⟩ := h
  exact ⟨hfixed, pieces, hmatched.setBreakpoint hq x, rfl⟩

theorem entryKind (hq : P q) : t.entryKind q.right.toUInt32 = s.entryKind q.left.toUInt32 := by
  obtain ⟨-, pieces, hmatched, rfl⟩ := h
  exact (hmatched.entryKind hq).symm

end Paired

/-- Processors with the same pieces of code under two register assignments. -/
def matching (config : Config) (a b : RegisterAssignment) (map : MemoryMap) : Coupling where
  config := config
  left := a
  right := b
  Rel := Paired config a b map
  New _ _ _ := True
  new_similar h _ := h
  config_eq h := h.fixed.config
  linked := by
    intro view P s t h
    obtain ⟨hfixed, pieces, hmatched, rfl⟩ := h
    rw [← hfixed.config]
    exact hmatched.linked
  similar h hsimilar := h.review hsimilar.config hsimilar.memory.shape
  write x w h := h.noteWrite (sameShape_write _ x w) _ w.bytes
  locate := by
    intro view P s t x h _ hs ht
    obtain ⟨P', q, hkeeps, hlocate⟩ := h.locate x hs ht
    exact ⟨P', q, hkeeps, fun _ _ => .inr trivial, hlocate⟩
  refresh := by
    intro view P s t p x checked h _ _ hs ht
    obtain ⟨P', q, hkeeps, hrefresh⟩ := h.refresh x hs ht
    exact ⟨P', q, hkeeps, fun _ _ => .inr trivial, hrefresh⟩
  stale := by
    intro view P s t p x checked h _ _ _
    rcases h.lookup x with hnone | ⟨q, hq, hs, ht⟩
    · exact .inl hnone
    · exact .inr ⟨q, hq, hs, ht, h.restoreBoundary hq x⟩

/-- A processor as it is created. -/
def Cpu.fresh (config : Config) (memory : MemoryMap) : Cpu where
  config := config
  registers := RegisterFile.zero.setStatus 0x27
  pc := 0
  cycle := 0
  target := 0
  limit := 0
  request := .none
  latched := none
  tracePending := false
  returnRequested := false
  stopped := false
  skipped := none
  memory := memory
  store := .initial
  breakpoints := ∅
  logsReset := false
  logsAcknowledge := false
  acknowledged := none
  counters := ⟨0, 0, 0, 0⟩

/-- A processor that was created with memory put together from ranges. -/
structure Cpu.IsNew (cpu : Cpu) (config : Config) (memory : MemoryMap) : Prop where
  built : ∃ chunks mask, build chunks mask = .ok memory
  created : Cpu.create config memory = .ok cpu

namespace Cpu.IsNew

theorem eq_fresh (h : cpu.IsNew config memory) :
    memory.addressMask = config.addressMask ∧ cpu = fresh config memory := by
  have hcreated := h.created
  unfold create at hcreated
  split at hcreated
  · exact absurd hcreated nofun
  · split at hcreated
    · exact ⟨‹_›, (Except.ok.inj hcreated).symm⟩
    · exact absurd hcreated nofun

theorem sound (h : cpu.IsNew config memory) : memory.Sound := by
  obtain ⟨chunks, mask, hbuild⟩ := h.built
  have hmask : memory.addressMask = mask := by
    unfold build at hbuild
    dsimp only at hbuild
    split at hbuild
    · exact absurd hbuild nofun
    · split at hbuild
      · exact absurd hbuild nofun
      · rw [← Except.ok.inj hbuild]
  have hmodel : build chunks config.model.addressMask = .ok memory := by
    rw [← hbuild, ← hmask, h.eq_fresh.1, Config.addressMask]
  exact sound_build hmodel

theorem twins (hx : x.IsNew (config.assign a) memory) (hy : y.IsNew (config.assign b) memory) :
    (matching config a b memory).Twins (fun _ => False) x y := by
  obtain ⟨-, rfl⟩ := hx.eq_fresh
  obtain ⟨-, rfl⟩ := hy.eq_fresh
  refine ⟨fresh config memory, .initial, .initial, rfl, rfl, ⟨rfl, hx.sound, .refl _⟩, [],
    Matched.initial _ _ _ _, ?_⟩
  funext p
  simp

end Cpu.IsNew

/-- A bus that nothing answers on. -/
def MemoryMap.nothing (mask : UInt32) : MemoryMap where
  chunks := #[]
  addressMask := mask
  log := #[]

namespace Cpu

theorem isNew_nothing (h : config.validate = .ok ()) :
    (fresh config (.nothing config.addressMask)).IsNew config (.nothing config.addressMask) where
  built := ⟨[], config.addressMask, by simp [build, sortChunks,
    checkChunks, checkDisjoint, nothing]⟩
  created := by
    rw [create, h]
    exact if_pos rfl

theorem resolve_odd {address : UInt32} {origin : Option UInt32} (h : ¬address &&& 1 = 0) :
    cpu.resolve address origin = cpu.takeAddressError ⟨address, .fetch, origin⟩ :=
  if_neg h

end Cpu

namespace CodeStore

theorem redirectWords_assign (s : CodeStore) (config : Config) (a : RegisterAssignment)
    (canonical : UInt32 → UInt32) (address : UInt32) (count : Nat) :
    s.redirectWords (config.assign a) canonical address count =
      s.redirectWords config canonical address count := by
  induction count generalizing s address with
  | zero => rfl
  | succ count ih => exact ih _ (address + 2)

theorem redirectRange_assign (s : CodeStore) (config : Config) (a : RegisterAssignment)
    (canonical : UInt32 → UInt32) (start stop : UInt32) :
    s.redirectRange (config.assign a) canonical start stop =
      s.redirectRange config canonical start stop := by
  unfold redirectRange
  rw [redirectWords_assign]

end CodeStore

namespace Paired

variable
 {P : Pair → Prop} {s t : CodeStore} (h : Paired config a b map view P s t)
include h

theorem placeBreakpoint (x : UInt32) :
    Paired config a b map view P (s.placeBreakpoint x) (t.placeBreakpoint x) := by
  unfold CodeStore.placeBreakpoint
  rcases h.lookup x with ⟨hs, ht⟩ | ⟨q, hq, hs, ht⟩
  · rw [hs, ht]
    exact h
  · rw [hs, ht]
    exact h.setBreakpoint hq x

theorem liftBreakpoint (x : UInt32) :
    Paired config a b map view P (s.liftBreakpoint x) (t.liftBreakpoint x) := by
  unfold CodeStore.liftBreakpoint
  rcases h.lookup x with ⟨hs, ht⟩ | ⟨q, hq, hs, ht⟩
  · rw [hs, ht]
    exact h
  · rw [hs, ht]
    dsimp only
    rw [h.entryKind hq]
    split
    · exact h.restoreBoundary hq x
    · exact h

end Paired

namespace Cpu

theorem insertBreakpoint_twin (cpu : Cpu) (a : RegisterAssignment) (store : CodeStore)
    (address : UInt32) (answers : Nat → BreakpointAnswer) :
    (cpu.twin a store).insertBreakpoint address answers =
      { cpu with
        breakpoints := cpu.breakpoints.insert (cpu.memory.canonical address) ⟨answers, 0⟩ }.twin a
          (store.placeBreakpoint (cpu.memory.canonical address)) := by
  unfold insertBreakpoint CodeStore.placeBreakpoint
  dsimp only [twin]
  cases store.lookup (cpu.memory.canonical address) <;> rfl

theorem removeBreakpoint_twin (cpu : Cpu) (a : RegisterAssignment) (store : CodeStore)
    (address : UInt32) :
    (cpu.twin a store).removeBreakpoint address =
      (cpu.breakpoints.contains (cpu.memory.canonical address),
        { cpu with
          breakpoints := cpu.breakpoints.erase (cpu.memory.canonical address)
          skipped := if cpu.breakpoints.contains (cpu.memory.canonical address) &&
            cpu.skipped == some (cpu.memory.canonical address) then none else cpu.skipped }.twin a
              (store.liftBreakpoint (cpu.memory.canonical address))) := by
  unfold removeBreakpoint CodeStore.liftBreakpoint
  dsimp only [twin]
  cases store.lookup (cpu.memory.canonical address) with
  | none => rfl
  | some native =>
    by_cases hkind : store.entryKind native = .breakpoint
    · simp only [hkind, if_true]
      rfl
    · simp only [hkind, if_false]
      rfl

end Cpu

/-- What is asked of processors between runs keeps their compiled code coupled, as far as it is
allowed. -/
structure Coupling.Serviced (C : Coupling) (allowed : Operation → Prop) : Prop where
  invalidate : ∀ {view P s t} start stop, allowed (.invalidate start stop) → C.Rel view P s t →
    C.Rel view P (s.redirectRange C.config view.canonical start stop)
      (t.redirectRange C.config view.canonical start stop)
  selectBank : ∀ {view P s t first stop memory} start bank, allowed (.selectBank start bank) →
    view.memory.selectBank start bank = .ok (some (first, stop), memory) → C.Rel view P s t →
    C.Rel (view.with memory) P (s.redirectRange C.config memory.canonical first stop)
      (t.redirectRange C.config memory.canonical first stop)
  insertBreakpoint : ∀ {view P s t has} address answers,
    allowed (.insertBreakpoint address answers) →
    (∀ x, has x = (view.canonical address == x || view.hasBreakpoint x)) → C.Rel view P s t →
    C.Rel { view with hasBreakpoint := has } P (s.placeBreakpoint (view.canonical address))
      (t.placeBreakpoint (view.canonical address))
  removeBreakpoint : ∀ {view P s t has} address, allowed (.removeBreakpoint address) →
    (∀ x, has x = (!(view.canonical address == x) && view.hasBreakpoint x)) → C.Rel view P s t →
    C.Rel { view with hasBreakpoint := has } P (s.liftBreakpoint (view.canonical address))
      (t.liftBreakpoint (view.canonical address))
  changeMemory : ∀ {view P s t} change shape, allowed (.changeMemory change shape) →
    C.Rel view P s t → C.Rel (view.with (change view.memory)) P s t

theorem serviced_matching (config : Config) (a b : RegisterAssignment) (map : MemoryMap) :
    (matching config a b map).Serviced fun _ => True where
  invalidate _ _ _ h := Paired.patch h fun hmatched => (hmatched.redirectRange config _ _ _).1
  selectBank := by
    intro view P s t first stop memory start bank _ hbank h
    have hreviewed : Paired config a b map (view.with memory) P s t :=
      Paired.review h rfl (view.memory.sameShape_selectBank hbank)
    exact hreviewed.patch fun hmatched => (hmatched.redirectRange config _ _ _).1
  insertBreakpoint _ _ _ _ h := (Paired.placeBreakpoint h _).review rfl (.refl _)
  removeBreakpoint _ _ _ h := (Paired.liftBreakpoint h _).review rfl (.refl _)
  changeMemory _ shape _ h := Paired.review h rfl (shape _)

namespace Coupling.Twins

variable {C : Coupling} {P : Pair → Prop}

theorem setRegisters (h : C.Twins P x y) (f : RegisterFile → RegisterFile) :
    C.Twins P { x with registers := f x.registers } { y with registers := f y.registers } :=
  h.change (fun c => { c with registers := f c.registers }) (fun _ _ _ => rfl) fun _ => .refl _

theorem reset (h : C.Twins P x y) : C.Twins P x.reset y.reset := by
  have hready := (h.setSr 0x2700).change
    (fun c => { c with stopped := false, returnRequested := false }) (fun _ _ _ => rfl) fun _ => .refl _
  obtain ⟨hstack, hread⟩ := hready.plain (Cpu.plain_read32 0)
  obtain ⟨hpc, hread'⟩ := hread.plain (Cpu.plain_read32 4)
  have hset := (hread'.setA 7 (Cpu.read32 { x.setSr 0x2700 with
    stopped := false, returnRequested := false } 0).1).change
      (fun c => { c.setPc ((Cpu.read32 { x.setSr 0x2700 with
        stopped := false, returnRequested := false } 0).2.read32 4).1 with
          latched := none, tracePending := false }) (fun _ _ _ => rfl) fun _ => .refl _
  unfold Cpu.reset
  dsimp only
  rw [← hstack, ← hpc]
  exact hset

theorem restore (h : C.Twins P x y) (bytes : List UInt8) :
    C.Twins P ((x.restore bytes).toOption.getD x) ((y.restore bytes).toOption.getD y) := by
  unfold Cpu.restore
  split
  · exact h
  · have hregisters := h.setRegisters fun registers =>
      ((Cpu.restoreGeneral registers bytes).setStatus
        (Bytes.word (bytes.drop 72) >>> 8).toUInt8).setCcr (Bytes.word (bytes.drop 72)).toUInt8
    exact hregisters.change (fun c => (Cpu.setPc { c with
        cycle := Bytes.long (bytes.drop 74)
        request := ⟨bytes.getD 82 0 &&& 7, Bytes.long (bytes.drop 78)⟩
        latched := if bytes.getD 83 0 = Cpu.noLatch then none else some (bytes.getD 83 0 &&& 7)
        tracePending := bytes.getD 84 0 != 0 } (Bytes.long (bytes.drop 68))).updateLimit)
      (fun _ _ _ => rfl) fun _ => .refl _

variable {allowed : Operation → Prop} (hC : C.Serviced allowed) (h : C.Twins P x y)
include hC h

theorem invalidate (start stop : UInt32) (hallowed : allowed (.invalidate start stop)) :
    C.Twins P (x.invalidate start stop) (y.invalidate start stop) := by
  obtain ⟨c, s, t, rfl, rfl, hrel⟩ := h
  have hinvalidate (d : RegisterAssignment) (r : CodeStore) : (c.twin d r).invalidate start stop =
      c.twin d (r.redirectRange C.config c.memory.canonical start stop) := by
    rw [← C.config_eq hrel]
    exact congrArg (c.twin d) (r.redirectRange_assign c.config d c.memory.canonical start stop)
  exact ⟨c, _, _, hinvalidate _ s, hinvalidate _ t, hC.invalidate start stop hallowed hrel⟩

theorem selectBank (start : UInt32) (bank : Nat) (hallowed : allowed (.selectBank start bank)) :
    C.Twins P ((x.selectBank start bank).toOption.getD x)
      ((y.selectBank start bank).toOption.getD y) := by
  obtain ⟨c, s, t, rfl, rfl, hrel⟩ := h
  unfold Cpu.selectBank
  dsimp only [Cpu.twin]
  rcases hbank : c.memory.selectBank start bank with _ | ⟨_ | ⟨first, stop⟩, memory⟩
  · exact ⟨c, s, t, rfl, rfl, hrel⟩
  · exact ⟨c, s, t, rfl, rfl, hrel⟩
  · let switched : Cpu := { c with
      memory := memory
      counters := { c.counters with bankSwitches := c.counters.bankSwitches + 1 } }
    have hselected (d : RegisterAssignment) (r : CodeStore) :
        (switched.twin d r).invalidate first stop =
          switched.twin d (r.redirectRange C.config memory.canonical first stop) := by
      rw [← C.config_eq hrel]
      exact congrArg (Cpu.twin switched d)
        (r.redirectRange_assign c.config d memory.canonical first stop)
    exact ⟨_, _, _, hselected _ _, hselected _ _, hC.selectBank start bank hallowed hbank hrel⟩

theorem insertBreakpoint (address : UInt32) (answers : Nat → BreakpointAnswer)
    (hallowed : allowed (.insertBreakpoint address answers)) :
    C.Twins P (x.insertBreakpoint address answers) (y.insertBreakpoint address answers) := by
  obtain ⟨c, s, t, rfl, rfl, hrel⟩ := h
  rw [Cpu.insertBreakpoint_twin, Cpu.insertBreakpoint_twin]
  refine ⟨_, _, _, rfl, rfl, hC.insertBreakpoint address answers hallowed (fun key => ?_) hrel⟩
  exact Std.TreeMap.contains_insert.trans (by rw [Std.compare_beq_eq_beq]; rfl)

theorem removeBreakpoint (address : UInt32) (hallowed : allowed (.removeBreakpoint address)) :
    (x.removeBreakpoint address).1 = (y.removeBreakpoint address).1 ∧
      C.Twins P (x.removeBreakpoint address).2 (y.removeBreakpoint address).2 := by
  obtain ⟨c, s, t, rfl, rfl, hrel⟩ := h
  rw [Cpu.removeBreakpoint_twin, Cpu.removeBreakpoint_twin]
  refine ⟨rfl, _, _, _, rfl, rfl, hC.removeBreakpoint address hallowed (fun key => ?_) hrel⟩
  exact Std.TreeMap.contains_erase.trans (by rw [bne, Std.compare_beq_eq_beq]; rfl)

theorem operate {operation : Operation} (hallowed : allowed operation) :
    C.Twins P (operation.apply x) (operation.apply y) := by
  cases operation with
  | setD n value => exact h.setRegisters (·.setD n value)
  | setA n value => exact h.setA n value
  | setCcr ccr => exact h.setRegisters (·.setCcr ccr)
  | setFlag flag value => exact h.setRegisters (·.setFlag flag value)
  | setSr sr => exact h.setSr sr
  | setPc pc => exact h.change (·.setPc pc) (fun _ _ _ => rfl) fun _ => .refl _
  | setInterrupt level cycle =>
    exact h.change (·.setInterrupt level cycle) (fun _ _ _ => rfl) fun _ => .refl _
  | adjustCycles deduction =>
    exact h.change (·.adjustCycles deduction) (fun _ _ _ => rfl) fun _ => .refl _
  | requestReturn => exact h.change Cpu.requestReturn (fun _ _ _ => rfl) fun _ => .refl _
  | reset => exact h.reset
  | restore bytes => exact h.restore bytes
  | write8 address value => exact h.write address (.byte value)
  | write16 address value => exact h.write address (.word value)
  | write32 address value => exact h.write address (.long value)
  | invalidate start stop => exact h.invalidate hC start stop hallowed
  | selectBank start bank => exact h.selectBank hC start bank hallowed
  | insertBreakpoint address answers => exact h.insertBreakpoint hC address answers hallowed
  | removeBreakpoint address => exact (h.removeBreakpoint hC address hallowed).2
  | observe => exact h.change Cpu.observe (fun _ _ _ => rfl) fun _ => .refl _
  | takeEvents =>
    exact h.change (fun c => c.takeEvents.2) (fun _ _ _ => rfl) fun _ => ⟨rfl, rfl, rfl, rfl⟩
  | takeAcknowledged =>
    exact h.change (fun c => c.takeAcknowledged.2) (fun _ _ _ => rfl) fun _ => .refl _
  | changeMemory change shape =>
    obtain ⟨c, s, t, rfl, rfl, hrel⟩ := h
    exact ⟨{ c with memory := change c.memory }, s, t, rfl, rfl, hC.changeMemory change shape hallowed hrel⟩

end Coupling.Twins

end Dynarec68k
