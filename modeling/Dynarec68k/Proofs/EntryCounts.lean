import Dynarec68k.Proofs.CompilationEnds
import Dynarec68k.Proofs.SampleRuns

namespace Dynarec68k

open Host Relation CodeStore

variable {native : CodePtr} {s s' : CodeStore}

theorem EntryTable.count_enter (table : EntryTable) (fresh : Bool) (address : UInt32)
    (native : CodePtr) (length : Nat) :
    (table.enter fresh address native length).count =
      if (table.lookup address).isSome = true then table.count else table.count + 1 := by
  unfold enter install replace
  cases fresh <;> cases table.lookup address <;> rfl

namespace CodeStore

def entered (s : CodeStore) : Set UInt32 :=
  {x | x &&& 1 = 0 ∧ (s.lookup x).isSome = true}

/-- Those with code memory that stand for themselves. -/
def instructions (map : MemoryMap) (s : CodeStore) : Set UInt32 :=
  {x | x ∈ s.entered ∧ map.isExecutable x = true ∧ map.canonical x = x}

/-- The counters tell how many entries there are. -/
structure Counted (map : MemoryMap) (s : CodeStore) : Prop where
  entries : s.entries.count = s.entered.ncard
  instructions : s.counters.instructions = s.counters.recompiled + (s.instructions map).ncard

/-- Nothing is entered, and no instruction is counted. -/
structure SameCounts (s s' : CodeStore) : Prop where
  entries : s'.entries = s.entries
  instructions : s'.counters.instructions = s.counters.instructions
  recompiled : s'.counters.recompiled = s.counters.recompiled

namespace SameCounts

variable {s'' : CodeStore}

theorem refl (s : CodeStore) : SameCounts s s :=
  ⟨rfl, rfl, rfl⟩

theorem trans (h : SameCounts s s') (h' : SameCounts s' s'') : SameCounts s s'' :=
  ⟨h'.entries.trans h.entries, h'.instructions.trans h.instructions,
    h'.recompiled.trans h.recompiled⟩

theorem of_eq (hentries : s'.entries = s.entries) (hcounters : s'.counters = s.counters) :
    SameCounts s s' := by
  constructor
  · exact hentries
  · rw [hcounters]
  · rw [hcounters]

end SameCounts

theorem Counted.same {map : MemoryMap} (h : Counted map s) (hsame : SameCounts s s') :
    Counted map s' := by
  have hentered : s'.entered = s.entered := by
    rw [entered, entered]
    simp only [lookup, hsame.entries]
  constructor
  · rw [hsame.entries, hentered]
    exact h.entries
  · rw [hsame.instructions, hsame.recompiled, CodeStore.instructions, hentered]
    exact h.instructions

section

variable (s : CodeStore)

theorem sameCounts_emitLink (target : UInt32) : SameCounts s (s.emitLink target) :=
  .of_eq (emitLink_entries s target).1 (emitLink_entries s target).2

theorem sameCounts_linkPending : SameCounts s s.linkPending :=
  ⟨rfl, rfl, rfl⟩

theorem patching_sameCounts : Patching SameCounts where
  refl := .refl
  trans := .trans
  redirect s _ _ := by
    unfold redirect
    split
    · exact .refl s
    · exact ⟨rfl, rfl, rfl⟩
  overwriteWith s site fragment := by
    rw [overwriteWith, emitFragment_eq]
    exact .of_eq rfl rfl
  goOn s := ⟨rfl, rfl, rfl⟩

end

section

variable {map : MemoryMap} {view : GuestView} {r : CodeStore} {x : UInt32}

theorem mem_entered : x ∈ s.entered ↔ (s.lookup x).isSome = true := by
  constructor
  · intro h
    exact h.2
  · intro h
    obtain ⟨n, hn⟩ := Option.isSome_iff_exists.mp h
    exact ⟨(EntryTable.lookup_eq_some.mp hn).1, h⟩

theorem notMem_entered (hnone : s.lookup x = none) : x ∉ s.entered := by
  rw [mem_entered, hnone]
  exact Bool.false_ne_true

theorem entered_insert
    (hlookup : ∀ y, (s'.lookup y).isSome = true ↔ (s.lookup y).isSome = true ∨ y = x) :
    s'.entered = insert x s.entered := by
  ext y
  rw [Set.mem_insert_iff, mem_entered, mem_entered, hlookup y]
  exact or_comm

theorem Counted.compiled {part : CodeUnit} (h : Counted map s)
    (hcompiled : Compiled view part true s s') (hs : s.Orderly) (hroom : s'.Fits)
    (hx : map.IsHome part.address) (hnone : s.lookup part.address = none)
    (hcount : part.count = if map.isExecutable part.address = true then 1 else 0) :
    Counted map s' := by
  have hentered := entered_insert (hcompiled.lookup hs hroom hx.1)
  have hnew := notMem_entered hnone
  have hfirst : ¬(s.lookup part.address).isSome = true := mem_entered.not.mp hnew
  constructor
  · rw [hcompiled.entries, EntryTable.count_enter, hentered, Set.ncard_insert_of_notMem hnew,
      ← h.entries]
    exact if_neg hfirst
  · rw [hcompiled.counters, h.instructions, hcount]
    split
    · rename_i hexecutable
      have hinsert : s'.instructions map = insert part.address (s.instructions map) := by
        ext y
        rw [CodeStore.instructions, hentered]
        constructor
        · rintro ⟨rfl | hold, hrest⟩
          · exact .inl rfl
          · exact .inr ⟨hold, hrest⟩
        · rintro (rfl | ⟨hold, hrest⟩)
          · exact ⟨.inl rfl, hexecutable, hx.2⟩
          · exact ⟨.inr hold, hrest⟩
      have hnotMem : part.address ∉ s.instructions map := fun hmem => hnew hmem.1
      rw [hinsert, Set.ncard_insert_of_notMem hnotMem, Nat.add_assoc]
    · rename_i hmissing
      have hsame : s'.instructions map = s.instructions map := by
        ext y
        rw [CodeStore.instructions, hentered]
        constructor
        · rintro ⟨rfl | hold, hrest⟩
          · exact absurd hrest.1 hmissing
          · exact ⟨hold, hrest⟩
        · rintro ⟨hold, hrest⟩
          exact ⟨.inr hold, hrest⟩
      rw [hsame, Nat.add_zero]

theorem Counted.renewed (h : Counted map s) (hs : s.Orderly)
    (hroom : (s.renewed view (view.instructionAt x)).Fits) (hx : map.IsHome x)
    (hsome : (s.lookup x).isSome = true) :
    Counted map (s.renewed view (view.instructionAt x)) := by
  have hfinish (t : CodeStore) : SameCounts t (t.finish view (view.instructionAt x)) := by
    unfold finish
    split
    · exact .refl t
    · exact sameCounts_emitLink t _
  have hroom' := (lengthened_finish _ _ _).fits hroom
  have hcompiled := (hs.recounted _).instruction rfl hroom'
  refine Counted.same ?_ (hfinish _)
  have haddress : (CodeUnit.instruction (view.instructionAt x)).address = x :=
    view.instructionAt_address x
  have hlookup := hcompiled.lookup (hs.recounted _) hroom' (haddress.symm ▸ hx.1)
  generalize compileInstruction _ view (view.instructionAt x) _ false = t at *
  have hentered : t.entered = s.entered := by
    ext y
    rw [mem_entered, mem_entered, hlookup y, haddress]
    exact or_iff_left_of_imp fun hy => hy ▸ hsome
  constructor
  · rw [hcompiled.entries, EntryTable.count_enter, haddress, hentered, ← h.entries]
    exact if_pos hsome
  · rw [hcompiled.counters, CodeStore.instructions, hentered]
    have hold := h.instructions
    unfold CodeStore.instructions at hold
    dsimp only [CodeUnit.count]
    omega

variable {config : Config} (hfixed : view.Fixed config map)
include hfixed

theorem Counted.instruction (h : Counted map s) (hs : s.Orderly) (hroom : s'.Fits)
    (hcompiled : Compiled view (.instruction (view.instructionAt x)) true s s')
    (hx : map.IsHome x) (hnone : s.lookup x = none)
    (hexecutable : view.memory.isExecutable x = true) : Counted map s' := by
  have haddress : (CodeUnit.instruction (view.instructionAt x)).address = x :=
    view.instructionAt_address x
  rw [← haddress] at hx hnone
  refine h.compiled hcompiled hs hroom hx hnone ?_
  rw [haddress, if_pos (hfixed.shape.isExecutable x ▸ hexecutable)]
  rfl

theorem Counted.missing (h : Counted map s) (hs : s.Orderly) (hroom : s'.Fits)
    (hcompiled : Compiled view (.missing x) true s s') (hx : map.IsHome x)
    (hnone : s.lookup x = none) (hmissing : view.memory.isExecutable x = false) :
    Counted map s' := by
  refine h.compiled hcompiled hs hroom hx hnone (if_neg ?_).symm
  rw [← hfixed.shape.isExecutable]
  exact Bool.eq_false_iff.mp hmissing

variable (hok : Closed view map.IsHome)
include hok

theorem Compiles.counted (h : Compiles view s x r) (hs : s.Orderly) (hroom : r.Fits)
    (hx : map.IsHome x) (hnone : s.lookup x = none) (hcounted : Counted map s) :
    Counted map r := by
  induction h with
  | @missing s x h =>
    exact hcounted.missing hfixed hs hroom (compiled_missing x hs.cursor rfl) hx hnone h
  | @terminal s x h hend =>
    exact hcounted.instruction hfixed hs hroom (hs.instruction rfl hroom) hx hnone h
  | @joins s s' x native h hend hs' hnext =>
    have hroom' : s'.Fits := Nat.lt_of_le_of_lt (CodeBuffer.size_emitAll _ [_]) hroom
    exact (hcounted.instruction hfixed hs hroom' (hs.instruction hs' hroom') hx hnone h).same
      (.of_eq rfl rfl)
  | @falls s s' r x h hend hs' hnext hrest ih =>
    have hroom' := hrest.lengthened.fits hroom
    have hcompiled := hs.instruction hs' hroom'
    exact ih (hcompiled.orderly hs) hroom (hok.stays.falls _ hx) hnext
      (hcounted.instruction hfixed hs hroom' hcompiled hx hnone h)

theorem CompilesBlock.counted (h : CompilesBlock view s x (native, r)) (hs : s.Orderly)
    (hroom : r.Fits) (hx : map.IsHome x) (hcounted : Counted map s) : Counted map r := by
  cases h with
  | found h => exact hcounted
  | compiled h hblock =>
    rw [hok.canonical x hx] at h hblock
    exact hblock.counted hfixed hok (hs.recounted _) hroom hx h (hcounted.same ⟨rfl, rfl, rfl⟩)

theorem Links.counted (h : Links view s r) (hs : s.Orderly) (hroom : r.Fits)
    (hwaits : ∀ y, s.Awaits y → map.IsHome y) (hcounted : Counted map s) : Counted map r := by
  induction h with
  | done h => exact hcounted.same (sameCounts_linkPending _)
  | @next s s' r link native h hblock hrest ih =>
    have hlinked := (Extends.linkPending s : Extends view _ s _).waits hwaits
    have hlink := hlinked _ ⟨link, Array.mem_of_getElem? h, rfl⟩
    have hroom' := hrest.lengthened.fits hroom
    obtain ⟨hextends, horderly, -⟩ := hblock.extends hok hs.linkPending hroom' hlink
    exact ih horderly hroom (hextends.waits hlinked)
      (hblock.counted hfixed hok hs.linkPending hroom' hlink
        (hcounted.same (sameCounts_linkPending s)))

theorem Locates.counted (h : Locates view s x (native, r)) (hs : s.Orderly) (hroom : r.Fits)
    (hx : map.IsHome (view.canonical x)) (hpending : s.pending = #[]) (hcounted : Counted map s) :
    Counted map r := by
  cases h with
  | found h => exact hcounted
  | compiled h hblock hlinks =>
    have hroom' := hlinks.lengthened.fits hroom
    obtain ⟨hextends, horderly, -⟩ := hblock.extends hok hs hroom' hx
    exact hlinks.counted hfixed hok horderly hroom (hextends.waits_none hpending)
      (hblock.counted hfixed hok hs hroom' hx hcounted)

theorem Refreshes.counted (h : Refreshes view s x (native, r)) (hs : s.Orderly) (hroom : r.Fits)
    (hx : map.IsHome (view.canonical x)) (hpending : s.pending = #[])
    (hsome : (s.lookup (view.canonical x)).isSome = true) (hcounted : Counted map s) :
    Counted map r := by
  obtain ⟨r', hlinks, hsize, hsame⟩ := h.links
  have hroom' : r'.Fits := Nat.lt_of_le_of_lt hsize hroom
  have hrenewed := hlinks.lengthened.fits hroom'
  obtain ⟨hextends, horderly, -⟩ := renewed_extends hok hs hrenewed hx
  exact (hlinks.counted hfixed hok horderly hroom' (hextends.waits_none hpending)
    (hcounted.renewed hs hrenewed hx hsome)).same (.of_eq hsame.1 hsame.2.2)

end

end CodeStore

open CodeStore

theorem Tidy.redirected {map : MemoryMap} {P : Pair → Prop} {p : Pair} {x checked : UInt32}
    (h : Tidy map P s) (hp : P p) (hhead : s.code.HeadAt p.left .redirected x checked none) :
    map.IsHome x ∧ (s.lookup x).isSome = true := by
  rcases h.heads p hp with ⟨hfound, kind, hhead'⟩ | ⟨q, -, -, -, hjump⟩
  · rw [hhead.redirected_unique hhead']
    exact ⟨h.home p hp, Option.isSome_iff_exists.mpr ⟨_, hfound⟩⟩
  · have hfirst := hhead.first.symm.trans hjump
    simp [CodeBuffer.opening] at hfirst

def Upkeep.counted {config : Config} {map : MemoryMap} (heven : map.KeepsEven)
    (hsound : map.Sound) : Upkeep config map fun _ => True :=
  let tidy := (Steady.tidy heven hsound : Steady config map).upkeep
  { ok := map.IsHome
    Inv := fun _ P s => Tidy map P s ∧ Counted map s
    stays := tidy.stays
    even := tidy.even
    opened := fun hsole hinv => tidy.opened hsole hinv.1
    similar := fun hinv _ => hinv
    write := fun x w hsole hinv =>
      ⟨tidy.write x w hsole hinv.1, hinv.2.same (patching_sameCounts.noteWrite _ _ _ _)⟩
    locate := by
      intro view pairs s pairs' x hx hsole hinv hsole' hgrown
      refine ⟨tidy.locate x hx hsole hinv.1 hsole' hgrown, ?_⟩
      obtain ⟨hclosed, horderly, hpending⟩ := hsole.closed heven
      rw [← hsole.fixed.canonical] at hx
      exact (locate_locates hclosed horderly (Sole.fits hsole') hx hpending).counted hsole.fixed hclosed
        horderly (Sole.fits hsole') hx hpending hinv.2
    refresh := by
      intro view pairs s pairs' p checked x hp hhead hsole hinv hsole' hrefreshed
      refine ⟨tidy.refresh x hp hhead hsole hinv.1 hsole' hrefreshed, ?_⟩
      obtain ⟨hclosed, horderly, hpending⟩ := hsole.closed heven
      obtain ⟨hhome, hsome⟩ := hinv.1.redirected hp hhead
      have hcanonical : view.canonical x = x := hclosed.canonical x hhome
      rw [← hcanonical] at hhome hsome
      exact (refresh_refreshes hclosed horderly (Sole.fits hsole') hhome hpending).counted hsole.fixed
        hclosed horderly (Sole.fits hsole') hhome hpending hsome hinv.2
    stale := fun hsole hinv hp hhead hgone hq hlookup =>
      ⟨tidy.stale hsole hinv.1 hp hhead hgone hq hlookup,
        hinv.2.same (patching_sameCounts.overwriteWith _ _ _)⟩
    invalidate := fun start stop hallowed hsole hinv =>
      ⟨tidy.invalidate start stop hallowed hsole hinv.1,
        hinv.2.same (patching_sameCounts.redirectRange _ _ _ _ _)⟩
    selectBank := fun start bank hallowed hbank hsole hinv =>
      ⟨tidy.selectBank start bank hallowed hbank hsole hinv.1,
        hinv.2.same (patching_sameCounts.redirectRange _ _ _ _ _)⟩
    insertBreakpoint := fun address answers hallowed hhas hsole hinv =>
      ⟨tidy.insertBreakpoint address answers hallowed hhas hsole hinv.1,
        hinv.2.same (patching_sameCounts.placeBreakpoint _ _)⟩
    removeBreakpoint := fun address hallowed hhas hsole hinv =>
      ⟨tidy.removeBreakpoint address hallowed hhas hsole hinv.1,
        hinv.2.same (patching_sameCounts.liftBreakpoint _ _)⟩
    changeMemory := fun _ _ _ _ hinv => hinv }

/-- At every moment of an execution of a processor whose memory ranges start at even addresses, the
table counts the even addresses with an entry, and of the instructions compiled all but those that
were compiled again are at different addresses, each with code memory and standing for itself. -/
theorem entries_counted {cpu : Cpu} {config : Config} {memory : MemoryMap}
    (hnew : cpu.IsNew config memory) (hstarts : ∀ chunk ∈ memory.chunks, chunk.start &&& 1 = 0)
    {m : Moment} (hpath : ReflTransGen (Moment.Next fun _ => True) (.idle cpu) m)
    (hfits : m.cpu.Fits) :
    let s := m.cpu.store
    s.entries.count = {x : UInt32 | x &&& 1 = 0 ∧ (s.lookup x).isSome = true}.ncard ∧
      s.counters.recompiled ≤ s.counters.instructions ∧
      s.counters.instructions - s.counters.recompiled =
        {x : UInt32 | (x &&& 1 = 0 ∧ (s.lookup x).isSome = true) ∧
          m.cpu.memory.isExecutable x = true ∧ m.cpu.memory.canonical x = x}.ncard := by
  intro s
  have heven := MemoryMap.keepsEven_of_starts hstarts
  have hempty : initial.entered = ∅ :=
    Set.eq_empty_of_forall_notMem fun x => notMem_entered (lookup_initial x)
  let U : Upkeep config memory fun _ => True := .counted heven hnew.sound
  have hinitial : U.Inv cpu.view (fun _ => False) .initial := by
    refine ⟨⟨fun _ hp => hp.elim, fun _ hp => hp.elim, fun _ hp => hp.elim⟩, ?_, ?_⟩
    · rw [hempty, Set.ncard_empty]
      rfl
    · rw [instructions, hempty]
      simp [initial]
  obtain ⟨P, htracks⟩ := hnew.tracks U hinitial (fun _ _ => trivial) hpath hfits cpu.registers
  obtain ⟨hsole, -, hcounted⟩ : Sole config memory m.cpu.view P s ∧ Tidy memory P s ∧
    Counted memory s := htracks.sole
  have hshape : memory.SameShape m.cpu.memory := hsole.fixed.shape
  have hsame : s.instructions m.cpu.memory = s.instructions memory := by
    simp only [instructions, hshape.isExecutable, hshape.canonical]
  have hinstructions := hcounted.instructions
  rw [← hsame] at hinstructions
  refine ⟨hcounted.entries, ?_, ?_⟩
  · omega
  · rw [hinstructions, Nat.add_sub_cancel_left]
    rfl

/-- Of five instructions that were compiled, two were compiled again. -/
theorem entries_counted_renewed :
    ∃ last : Cpu, (Cpu.renewing .default).RunsTo 26 (.ok (), last) ∧
      last.store.counters.instructions = 5 ∧ last.store.counters.recompiled = 2 ∧
      3 = {x : UInt32 | (x &&& 1 = 0 ∧ (last.store.lookup x).isSome = true) ∧
        last.memory.isExecutable x = true ∧ last.memory.canonical x = x}.ncard := by
  obtain ⟨last, hruns, hroom, ⟨hinstructions, hrecompiled⟩, -⟩ := Cpu.renewing_runsTo
  have hpath : ReflTransGen (Moment.Next fun _ => True) _ (.idle last) :=
    .head (.operate _ (.setD 0 0x7201) True.intro) (hruns.moments _)
  obtain ⟨-, -, hcounted⟩ := entries_counted (Cpu.isNew_program (by decide) rfl) (by decide) hpath
    hroom.fits
  simp only [show (Moment.idle last).cpu = last from rfl] at hcounted
  rw [hinstructions, hrecompiled] at hcounted
  exact ⟨last, hruns, hinstructions, hrecompiled, hcounted⟩

end Dynarec68k
