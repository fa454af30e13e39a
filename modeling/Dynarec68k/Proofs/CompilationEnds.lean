import Dynarec68k.Proofs.EntryChains
import Dynarec68k.Proofs.RefusedWords
import Mathlib.Data.Set.Card

/-!
Compilation ends by itself. `Locates` and `Refreshes` are the loops of compilation with no bound on
their passes. Every pass gives an even address its first entry, and addresses that branches wait for
are even and stand for themselves, so that the bound is never reached. What is left behind has all
the entries that its code leads to: `compilation_ends`.
-/

namespace Dynarec68k

open Host Relation CodeStore

variable {native : CodePtr} {r s s' : CodeStore} {view : GuestView} {inst : Instruction}
  {target x : UInt32} {ok : UInt32 → Prop}

namespace CodeStore

theorem lookup_initial (x : UInt32) : initial.lookup x = none :=
  EntryTable.lookup_empty x

/-- An address has an entry, or a branch waits for it. -/
def Seeks (s : CodeStore) (x : UInt32) : Prop :=
  (s.lookup x).isSome = true ∨ s.Awaits x

theorem Seeks.of_awaits (h : s.lookup x = none → s.Awaits x) : s.Seeks x := by
  cases hlookup : s.lookup x with
  | none => exact .inr (h hlookup)
  | some native => exact .inl (Option.isSome_iff_exists.mpr ⟨native, hlookup⟩)

theorem not_awaits (h : s.pending = #[]) (x : UInt32) : ¬s.Awaits x := by
  rintro ⟨link, hmem, -⟩
  simp [h] at hmem

end CodeStore

/-- Code is added at the end, and pages were made for code that is there. -/
structure CodeStore.Orderly (s : CodeStore) : Prop where
  cursor : s.code.cursor = none
  based : s.entries.pages.Based s.code.ops.size

theorem Compiled.orderly {part : CodeUnit} {install : Bool} (h : Compiled view part install s s')
    (hs : s.Orderly) : s'.Orderly :=
  ⟨h.appended.cursor, h.based hs.based⟩

theorem Compiled.lookup {part : CodeUnit} {install : Bool} (h : Compiled view part install s s')
    (hs : s.Orderly) (hroom : s'.Fits) (heven : part.address &&& 1 = 0) (x : UInt32) :
    (s'.lookup x).isSome = true ↔ (s.lookup x).isSome = true ∨ x = part.address := by
  have htakes := h.takes hs.based hroom
  rw [h.lookup_eq]
  constructor
  · intro hsome
    obtain ⟨n, hn⟩ := Option.isSome_iff_exists.mp hsome
    rcases EntryTable.lookup_enter htakes hn with hold | ⟨-, hword⟩
    · exact .inl (Option.isSome_iff_exists.mpr ⟨n, hold⟩)
    · exact .inr (eq_of_word (EntryTable.lookup_eq_some.mp hn).1 heven hword.symm)
  · rintro (hsome | rfl)
    · obtain ⟨n, hn⟩ := Option.isSome_iff_exists.mp hsome
      exact EntryTable.isSome_enter htakes install _ (EntryTable.lookup_eq_some.mp hn).1
        (.inl hsome)
    · exact EntryTable.isSome_enter htakes install _ heven (.inr rfl)

namespace CodeStore

theorem emitLink_entries (s : CodeStore) (target : UInt32) :
    (s.emitLink target).entries = s.entries ∧ (s.emitLink target).counters = s.counters := by
  unfold emitLink
  split <;> exact ⟨rfl, rfl⟩

theorem awaits_emitLink (s : CodeStore) (target x : UInt32) :
    (s.emitLink target).Awaits x ↔ s.Awaits x ∨ s.lookup x = none ∧ target = x := by
  unfold emitLink Awaits
  split
  · rename_i native hsome
    refine (or_iff_left ?_).symm
    rintro ⟨hnone, rfl⟩
    cases hsome.symm.trans hnone
  · rename_i hnone
    simp only [Array.mem_push, or_and_right, exists_or, exists_eq_left]
    exact or_congr_right ⟨fun h => ⟨h ▸ hnone, h⟩, fun h => h.2⟩

theorem awaits_linkPending (s : CodeStore) (x : UInt32) :
    s.linkPending.Awaits x ↔ s.Awaits x ∧ s.lookup x = none := by
  unfold linkPending Awaits
  simp only [Array.mem_filter, Option.isNone_iff_eq_none]
  constructor
  · rintro ⟨link, ⟨hmem, hnone⟩, rfl⟩
    exact ⟨⟨link, hmem, rfl⟩, hnone⟩
  · rintro ⟨⟨link, hmem, rfl⟩, hnone⟩
    exact ⟨link, ⟨hmem, hnone⟩, rfl⟩

section

variable (view : GuestView)

/-- A block is compiled from an address on, up to an instruction that ends it, code that exists, or
an address without code memory. -/
inductive Compiles : CodeStore → UInt32 → CodeStore → Prop
  | missing {s : CodeStore} {x : UInt32} (h : view.memory.isExecutable x = false) :
      Compiles s x (s.compileMissing view x s.code.here)
  | terminal {s : CodeStore} {x : UInt32} (h : view.memory.isExecutable x = true)
      (hend : (view.instructionAt x).isTerminal = true) :
      Compiles s x (s.compileInstruction view (view.instructionAt x) s.code.here true)
  | joins {s s' : CodeStore} {x : UInt32} {native : CodePtr}
      (h : view.memory.isExecutable x = true) (hend : (view.instructionAt x).isTerminal = false)
      (hs : s' = s.compileInstruction view (view.instructionAt x) s.code.here true)
      (hnext : s'.lookup (view.following (view.instructionAt x)) = some native) :
      Compiles s x { s' with code := s'.code.emitJump (some native) }
  | falls {s s' r : CodeStore} {x : UInt32}
      (h : view.memory.isExecutable x = true) (hend : (view.instructionAt x).isTerminal = false)
      (hs : s' = s.compileInstruction view (view.instructionAt x) s.code.here true)
      (hnext : s'.lookup (view.following (view.instructionAt x)) = none)
      (hrest : Compiles s' (view.following (view.instructionAt x)) r) : Compiles s x r

/-- The block at an address is compiled unless that has been done. -/
inductive CompilesBlock (s : CodeStore) (start : UInt32) : CodePtr × CodeStore → Prop
  | found {native : CodePtr} (h : s.lookup (view.canonical start) = some native) :
      CompilesBlock s start (native, s)
  | compiled {r : CodeStore} (h : s.lookup (view.canonical start) = none)
      (hblock : Compiles view
        { s with counters := { s.counters with blocks := s.counters.blocks + 1 } }
        (view.canonical start) r) : CompilesBlock s start (s.code.here, r)

/-- Waiting branches are linked and their targets compiled, the oldest first, until none waits. -/
inductive Links : CodeStore → CodeStore → Prop
  | done {s : CodeStore} (h : s.linkPending.pending[0]? = none) : Links s s.linkPending
  | next {s s' r : CodeStore} {link : PendingLink} {native : CodePtr}
      (h : s.linkPending.pending[0]? = some link)
      (hblock : CompilesBlock view s.linkPending link.target (native, s')) (hrest : Links s' r) :
      Links s r

/-- The code of an address is found, or compiled with all that it branches to. -/
inductive Locates (s : CodeStore) (x : UInt32) : CodePtr × CodeStore → Prop
  | found {native : CodePtr} (h : s.lookup (view.canonical x) = some native) :
      Locates s x (native, s)
  | compiled {native : CodePtr} {s' r : CodeStore} (h : s.lookup (view.canonical x) = none)
      (hblock : CompilesBlock view s (view.canonical x) (native, s')) (hlinks : Links view s' r) :
      Locates s x (native, r)

/-- The instruction at an address is compiled again with all that it branches to, and its old entry
leads to the new code. -/
inductive Refreshes (s : CodeStore) (x : UInt32) : CodePtr × CodeStore → Prop
  | replaced {old : CodePtr} {r : CodeStore} (h : s.lookup (view.canonical x) = some old)
      (hlinks : Links view (s.renewed view (view.instructionAt (view.canonical x))) r) :
      Refreshes s x (s.code.here,
        { r with code := r.code.overwrite old fun code => code.emitJump (some s.code.here) })
  | added {r : CodeStore} (h : s.lookup (view.canonical x) = none)
      (hlinks : Links view (s.renewed view (view.instructionAt (view.canonical x))) r) :
      Refreshes s x (s.code.here, r)

end

theorem Orderly.linkPending (h : s.Orderly) : s.linkPending.Orderly := by
  refine ⟨?_, s.size_linkPending ▸ h.based⟩
  have hpatch (code : CodeBuffer) (site target : CodePtr) :
      (code.patchBranch site target).cursor = code.cursor := by
    unfold CodeBuffer.patchBranch
    split <;> simp [CodeBuffer.replace, CodeBuffer.noteOverwritten]
  change (linkAll s.entries s.pending s.code).cursor = none
  rw [linkAll, ← Array.foldl_toList, ← h.cursor]
  generalize s.code = code
  induction s.pending.toList generalizing code with
  | nil => rfl
  | cons link rest ih =>
    rw [List.foldl_cons, ih]
    split
    · exact hpatch _ _ _
    · rfl

theorem Orderly.emit (h : s.Orderly) (op : Host.Op) : Orderly { s with code := s.code.emit op } := by
  have hemit : s.code.emit op = { s.code with ops := s.code.ops.push op } :=
    CodeBuffer.emitAll_append h.cursor [op]
  rw [hemit]
  refine ⟨h.cursor, h.based.mono ?_⟩
  rw [Array.size_push]
  exact Nat.le_succ _

theorem Orderly.emitLink (h : s.Orderly) (target : UInt32) : (s.emitLink target).Orderly := by
  unfold CodeStore.emitLink
  split
  · exact h.emit _
  · exact ⟨(h.emit _).cursor, (h.emit _).based⟩

theorem Orderly.recounted (h : s.Orderly) (counters : CompileCounters) :
    Orderly { s with counters := counters } :=
  ⟨h.cursor, h.based⟩

theorem Orderly.instruction (h : s.Orderly) {fresh : Bool}
    (hs : s' = s.compileInstruction view inst s.code.here fresh) (hroom : s'.Fits) :
    Compiled view (.instruction inst) fresh s s' :=
  compiled_instruction inst fresh h.cursor hs hroom

theorem Compiles.lengthened (h : Compiles view s x r) : Lengthened s r := by
  induction h with
  | @missing s x h => exact s.lengthened_compileMissing view x s.code.here
  | @terminal s x h hend => exact s.lengthened_compileInstruction view _ _ true
  | @joins s s' x native h hend hs hnext =>
    have hcompiled := s.lengthened_compileInstruction view (view.instructionAt x) s.code.here true
    rw [← hs] at hcompiled
    exact hcompiled.trans ⟨CodeBuffer.size_emitAll _ [_], rfl⟩
  | @falls s s' r x h hend hs hnext hrest ih =>
    have hcompiled := s.lengthened_compileInstruction view (view.instructionAt x) s.code.here true
    rw [← hs] at hcompiled
    exact hcompiled.trans ih

theorem orderly_initial : initial.Orderly where
  cursor := rfl
  based := Pages.based_empty _

theorem CompilesBlock.lengthened (h : CompilesBlock view s x (native, r)) : Lengthened s r := by
  cases h with
  | found h => exact .refl _
  | compiled h hblock => exact ⟨hblock.lengthened.size, hblock.lengthened.endless⟩

theorem Links.lengthened (h : Links view s r) : Lengthened s r := by
  induction h with
  | @done s h => exact s.lengthened_linkPending
  | @next s s' r link native h hblock hrest ih =>
    exact s.lengthened_linkPending.trans (hblock.lengthened.trans ih)

/-- The jump written over the old entry leaves all but the code. -/
theorem Refreshes.links (h : Refreshes view s x (native, r)) :
    ∃ r', Links view (s.renewed view (view.instructionAt (view.canonical x))) r' ∧
      r'.code.ops.size ≤ r.code.ops.size ∧ r.entries = r'.entries ∧ r.pending = r'.pending ∧
      r.counters = r'.counters := by
  cases h with
  | @replaced old r h hlinks =>
    refine ⟨r, hlinks, ?_, rfl, rfl, rfl⟩
    exact CodeBuffer.size_emitAll { r.code with cursor := some old.toNat } [_]
  | added h hlinks => exact ⟨_, hlinks, Nat.le_refl _, rfl, rfl, rfl⟩

theorem Lengthened.fits (h : Lengthened s s') (hroom : s'.Fits) : s.Fits :=
  Nat.lt_of_le_of_lt h.size hroom

/-- What the code of an instruction leads to has an entry, or a branch waits for it. -/
structure Serves (s : CodeStore) (view : GuestView) (inst : Instruction) : Prop where
  falls : inst.isTerminal = false → s.Seeks (view.following inst)
  jumps : ∀ x ∈ Fragment.targets (inst.body view.config), s.Seeks (view.canonical x)

/-- Entries were added at addresses `ok`, with all that their code leads to. -/
structure Extends (view : GuestView) (ok : UInt32 → Prop) (s s' : CodeStore) : Prop where
  keeps : ∀ x, (s.lookup x).isSome = true → (s'.lookup x).isSome = true
  seeks : ∀ x, s.Seeks x → s'.Seeks x
  awaits : ∀ x, s'.Awaits x → s.Awaits x ∨ ok x
  serves : ∀ x, (s'.lookup x).isSome = true → (s.lookup x).isSome = true ∨
    ok x ∧ (view.memory.isExecutable x = true → s'.Serves view (view.instructionAt x))

theorem Serves.mono (h : s.Serves view inst) (hseeks : ∀ x, s.Seeks x → s'.Seeks x) :
    s'.Serves view inst where
  falls hend := hseeks _ (h.falls hend)
  jumps x hx := hseeks _ (h.jumps x hx)

namespace Extends

variable {s'' : CodeStore}

theorem trans (h : Extends view ok s s') (h' : Extends view ok s' s'') :
    Extends view ok s s'' where
  keeps x hx := h'.keeps x (h.keeps x hx)
  seeks x hx := h'.seeks x (h.seeks x hx)
  awaits x hx := (h'.awaits x hx).elim (h.awaits x) .inr
  serves x hx := by
    rcases h'.serves x hx with hold | hnew
    · exact (h.serves x hold).imp_right fun hnew =>
        ⟨hnew.1, fun hexecutable => (hnew.2 hexecutable).mono h'.seeks⟩
    · exact .inr hnew

theorem of_lookup (hlookup : ∀ x, (s'.lookup x).isSome = (s.lookup x).isSome)
    (hseeks : ∀ x, s.Awaits x → s'.Seeks x) (hawaits : ∀ x, s'.Awaits x → s.Awaits x ∨ ok x) :
    Extends view ok s s' where
  keeps x hx := (hlookup x).trans hx
  seeks x hx := hx.elim (fun h => .inl ((hlookup x).trans h)) (hseeks x)
  awaits := hawaits
  serves x hx := .inl ((hlookup x).symm.trans hx)

theorem of_eq (hentries : s'.entries = s.entries) (hpending : s'.pending = s.pending) :
    Extends view ok s s' := by
  have hawaits (x : UInt32) : s'.Awaits x ↔ s.Awaits x := by rw [Awaits, Awaits, hpending]
  exact of_lookup (fun x => by rw [lookup, lookup, hentries])
    (fun x hx => .inr ((hawaits x).mpr hx)) fun x hx => .inl ((hawaits x).mp hx)

theorem recounted {counters : CompileCounters}
    (h : Extends view ok { s with counters := counters } s') : Extends view ok s s' := by
  have hsame : Extends view ok s { s with counters := counters } := .of_eq rfl rfl
  exact hsame.trans h

theorem waits (h : Extends view ok s s') (hwaits : ∀ x, s.Awaits x → ok x) (x : UInt32)
    (hx : s'.Awaits x) : ok x :=
  (h.awaits x hx).elim (hwaits x) id

theorem waits_none (h : Extends view ok s s') (hpending : s.pending = #[]) (x : UInt32) :
    s'.Awaits x → ok x :=
  h.waits (fun x hx => absurd hx (not_awaits hpending x)) x

theorem linkPending (s : CodeStore) : Extends view ok s s.linkPending :=
  of_lookup (fun _ => rfl)
    (fun x hx => .of_awaits fun hnone => (awaits_linkPending s x).mpr ⟨hx, hnone⟩)
    fun x hx => .inl ((awaits_linkPending s x).mp hx).1

theorem emitLink (s : CodeStore) (htarget : ok target) : Extends view ok s (s.emitLink target) := by
  refine of_lookup (fun x => by rw [lookup, lookup, (emitLink_entries s target).1])
    (fun x hx => .inr ((awaits_emitLink s target x).mpr (.inl hx))) fun x hx => ?_
  rcases (awaits_emitLink s target x).mp hx with hold | ⟨-, rfl⟩
  · exact .inl hold
  · exact .inr htarget

end Extends

theorem seeks_emitLink (s : CodeStore) (target : UInt32) : (s.emitLink target).Seeks target := by
  refine .of_awaits fun hnone => (awaits_emitLink s target target).mpr (.inr ⟨?_, rfl⟩)
  rwa [lookup, (emitLink_entries s target).1] at hnone

/-- Addresses at which compilation ends: it does not leave them, they are even, and they stand for
themselves. -/
structure Closed (view : GuestView) (ok : UInt32 → Prop) : Prop where
  stays : view.Stays ok
  even : ∀ x, ok x → x &&& 1 = 0
  canonical : ∀ x, ok x → view.canonical x = x

section

variable (hok : Closed view ok) {part : CodeUnit} {install : Bool}
include hok

theorem compiled_jumps (h : Compiled view part install s s') (hs : s.Orderly) (hroom : s'.Fits)
    (hx : ok part.address) {y : UInt32} (hy : y ∈ Fragment.targets (part.body view.config)) :
    s'.Seeks (view.canonical y) := by
  cases hold : s.lookup (view.canonical y) with
  | none => exact .inr ((h.awaits _).mpr (.inr ⟨hold, y, hy, rfl⟩))
  | some native =>
    exact .inl ((h.lookup hs hroom (hok.even _ hx) _).mpr (.inl (by rw [hold, Option.isSome_some])))

theorem Extends.compiled (h : Compiled view part install s s') (hs : s.Orderly) (hroom : s'.Fits)
    (hx : ok part.address)
    (hjumps : ∀ y ∈ Fragment.targets (part.body view.config), ok (view.canonical y))
    (hrest : Extends view ok s' r)
    (hserves : view.memory.isExecutable part.address = true →
      r.Serves view (view.instructionAt part.address)) :
    Extends view ok s r ∧ (r.lookup part.address).isSome = true := by
  have hlookup := h.lookup hs hroom (hok.even _ hx)
  refine ⟨⟨fun y hy => hrest.keeps y ((hlookup y).mpr (.inl hy)), fun y hy => hrest.seeks y ?_,
    fun y hy => (hrest.awaits y hy).elim (fun hy => ?_) .inr, fun y hy => ?_⟩,
    hrest.keeps _ ((hlookup _).mpr (.inr rfl))⟩
  · exact hy.imp (fun h => (hlookup y).mpr (.inl h)) fun hold => (h.awaits y).mpr (.inl hold)
  · rcases (h.awaits y).mp hy with hold | ⟨-, z, hz, rfl⟩
    · exact .inl hold
    · exact .inr (hjumps z hz)
  · rcases hrest.serves y hy with hold | hnew
    · rcases (hlookup y).mp hold with hold | rfl
      · exact .inl hold
      · exact .inr ⟨hx, hserves⟩
    · exact .inr hnew

theorem Extends.instruction (hx : ok x) {fresh : Bool} (hs : s.Orderly) (hroom : s'.Fits)
    (h : Compiled view (.instruction (view.instructionAt x)) fresh s s')
    (hrest : Extends view ok s' r)
    (hnext : (view.instructionAt x).isTerminal = false →
      r.Seeks (view.following (view.instructionAt x))) :
    Extends view ok s r ∧ (r.lookup x).isSome = true ∧ r.Serves view (view.instructionAt x) := by
  have haddress : (CodeUnit.instruction (view.instructionAt x)).address = x :=
    view.instructionAt_address x
  rw [← haddress] at hx
  have hserves : r.Serves view (view.instructionAt x) :=
    ⟨hnext, fun y hy => hrest.seeks _ (compiled_jumps hok h hs hroom hx hy)⟩
  have hall := Extends.compiled hok h hs hroom hx (fun y hy => ?_) hrest fun _ =>
    haddress.symm ▸ hserves
  · rw [haddress] at hall
    exact ⟨hall.1, hall.2, hserves⟩
  · rw [haddress] at hx
    exact hok.stays.jumps x hx view.config.registerAssignment y hy

/-- A block extends the store by its first address, and by what it runs through. -/
theorem Compiles.extends (h : Compiles view s x r) (hs : s.Orderly) (hroom : r.Fits) (hx : ok x) :
    Extends view ok s r ∧ r.Orderly ∧ (r.lookup x).isSome = true := by
  induction h with
  | @missing s x h =>
    have hcompiled : Compiled view (.missing x) true s _ := compiled_missing x hs.cursor rfl
    have hall := Extends.compiled hok hcompiled hs hroom hx (List.forall_mem_nil _) (.of_eq rfl rfl)
      fun hexecutable => by cases h.symm.trans hexecutable
    exact ⟨hall.1, hcompiled.orderly hs, hall.2⟩
  | @terminal s x h hend =>
    have hcompiled := hs.instruction rfl hroom
    have hall := Extends.instruction hok hx hs hroom hcompiled (.of_eq rfl rfl) fun hopen => by
      cases hend.symm.trans hopen
    exact ⟨hall.1, hcompiled.orderly hs, hall.2.1⟩
  | @joins s s' x native h hend hs' hnext =>
    have hroom' : s'.Fits := Nat.lt_of_le_of_lt (CodeBuffer.size_emitAll _ [_]) hroom
    have hcompiled := hs.instruction hs' hroom'
    obtain ⟨hextends, hfound, -⟩ := Extends.instruction hok hx hs hroom' hcompiled (.of_eq rfl rfl)
      fun _ => .inl (Option.isSome_iff_exists.mpr ⟨_, hnext⟩)
    exact ⟨hextends.trans (.of_eq rfl rfl), (hcompiled.orderly hs).emit _, hfound⟩
  | @falls s s' r x h hend hs' hnext hrest ih =>
    have hroom' := hrest.lengthened.fits hroom
    have hcompiled := hs.instruction hs' hroom'
    obtain ⟨hextends, horderly, hfound⟩ := ih (hcompiled.orderly hs) hroom (hok.stays.falls _ hx)
    have hall := Extends.instruction hok hx hs hroom' hcompiled hextends fun _ => .inl hfound
    exact ⟨hall.1, horderly, hall.2.1⟩

theorem CompilesBlock.extends (h : CompilesBlock view s x (native, r)) (hs : s.Orderly)
    (hroom : r.Fits) (hx : ok x) :
    Extends view ok s r ∧ r.Orderly ∧ (r.lookup x).isSome = true := by
  have hcanonical := hok.canonical x hx
  cases h with
  | found h =>
    rw [hcanonical] at h
    exact ⟨.of_eq rfl rfl, hs, Option.isSome_iff_exists.mpr ⟨_, h⟩⟩
  | compiled h hblock =>
    rw [hcanonical] at hblock
    obtain ⟨hextends, horderly, hfound⟩ := hblock.extends hok (hs.recounted _) hroom hx
    exact ⟨hextends.recounted, horderly, hfound⟩

theorem Links.extends (h : Links view s r) (hs : s.Orderly) (hroom : r.Fits)
    (hwaits : ∀ y, s.Awaits y → ok y) : Extends view ok s r ∧ r.pending = #[] := by
  induction h with
  | @done s h => exact ⟨.linkPending s, Array.eq_empty_of_size_eq_zero (by grind)⟩
  | @next s s' r link native h hblock hrest ih =>
    have hlink : s.linkPending.Awaits link.target := ⟨link, Array.mem_of_getElem? h, rfl⟩
    have hlinked := (Extends.linkPending s : Extends view ok s _).waits hwaits
    obtain ⟨hextends, horderly, -⟩ := hblock.extends hok hs.linkPending
      (hrest.lengthened.fits hroom) (hlinked _ hlink)
    obtain ⟨hrest, hdone⟩ := ih horderly hroom (hextends.waits hlinked)
    exact ⟨(Extends.linkPending s).trans (hextends.trans hrest), hdone⟩

theorem Locates.extends (h : Locates view s x (native, r)) (hs : s.Orderly) (hroom : r.Fits)
    (hx : ok (view.canonical x)) (hpending : s.pending = #[]) :
    Extends view ok s r ∧ r.pending = #[] ∧ (r.lookup (view.canonical x)).isSome = true := by
  cases h with
  | found h => exact ⟨.of_eq rfl rfl, hpending, Option.isSome_iff_exists.mpr ⟨_, h⟩⟩
  | compiled h hblock hlinks =>
    obtain ⟨hextends, horderly, hfound⟩ :=
      hblock.extends hok hs (hlinks.lengthened.fits hroom) hx
    obtain ⟨hlinked, hdone⟩ := hlinks.extends hok horderly hroom (hextends.waits_none hpending)
    exact ⟨hextends.trans hlinked, hdone, hlinked.keeps _ hfound⟩

theorem renewed_extends (hs : s.Orderly) (hroom : (s.renewed view (view.instructionAt x)).Fits)
    (hx : ok x) :
    Extends view ok s (s.renewed view (view.instructionAt x)) ∧
      (s.renewed view (view.instructionAt x)).Orderly ∧
      ((s.renewed view (view.instructionAt x)).lookup x).isSome = true ∧
      (s.renewed view (view.instructionAt x)).Serves view (view.instructionAt x) := by
  have hroom' := (lengthened_finish _ _ _).fits hroom
  have hcompiled := (hs.recounted _).instruction rfl hroom'
  have horderly := hcompiled.orderly (hs.recounted _)
  unfold renewed finish
  split
  · rename_i hend
    have hall := Extends.instruction hok hx (hs.recounted _) hroom' hcompiled (.of_eq rfl rfl)
      fun hopen => by cases hend.symm.trans hopen
    exact ⟨hall.1.recounted, horderly, hall.2⟩
  · have hall := Extends.instruction hok hx (hs.recounted _) hroom' hcompiled
      (.emitLink _ (hok.stays.falls x hx)) fun _ => seeks_emitLink _ _
    exact ⟨hall.1.recounted, horderly.emitLink _, hall.2⟩

theorem Refreshes.extends (h : Refreshes view s x (native, r)) (hs : s.Orderly) (hroom : r.Fits)
    (hx : ok (view.canonical x)) (hpending : s.pending = #[]) :
    Extends view ok s r ∧ r.pending = #[] ∧ (r.lookup (view.canonical x)).isSome = true ∧
      r.Serves view (view.instructionAt (view.canonical x)) := by
  obtain ⟨r', hlinks, hsize, hentries, hwaiting, -⟩ := h.links
  have hroom' : r'.Fits := Nat.lt_of_le_of_lt hsize hroom
  obtain ⟨hrenewed, horderly, hfound, hserves⟩ :=
    renewed_extends hok hs (hlinks.lengthened.fits hroom') hx
  obtain ⟨hlinked, hdone⟩ :=
    hlinks.extends hok horderly hroom' (hrenewed.waits_none hpending)
  have hall : Extends view ok (s.renewed view (view.instructionAt (view.canonical x))) r :=
    hlinked.trans (.of_eq hentries hwaiting)
  exact ⟨hrenewed.trans hall, hwaiting.trans hdone, hall.keeps _ hfound, hserves.mono hall.seeks⟩

end

/-- Even addresses without an entry. -/
noncomputable def vacant (s : CodeStore) : Nat :=
  {x : UInt32 | x &&& 1 = 0 ∧ s.lookup x = none}.ncard

instance : Finite UInt32 :=
  Finite.of_injective UInt32.toFin fun _ _ h => UInt32.toFin_inj.mp h

theorem vacant_lt (s : CodeStore) : s.vacant < compileFuel := by
  have hstrict : {x : UInt32 | x &&& 1 = 0 ∧ s.lookup x = none} ⊂ Set.univ :=
    Set.ssubset_univ_iff.mpr fun h => absurd (h.symm ▸ Set.mem_univ 1 :
      (1 : UInt32) ∈ {x : UInt32 | x &&& 1 = 0 ∧ s.lookup x = none}).1 (by decide)
  have hcard : Nat.card UInt32 ≤ Nat.card (Fin UInt32.size) :=
    Nat.card_le_card_of_injective UInt32.toFin fun _ _ h => UInt32.toFin_inj.mp h
  calc s.vacant < (Set.univ : Set UInt32).ncard := Set.ncard_lt_ncard hstrict
    _ = Nat.card UInt32 := Set.ncard_univ _
    _ ≤ Nat.card (Fin UInt32.size) := hcard
    _ = compileFuel := Nat.card_fin _

theorem vacant_lt_vacant (heven : x &&& 1 = 0) (hnone : s.lookup x = none)
    (hsome : (r.lookup x).isSome = true)
    (hkeeps : ∀ y, (s.lookup y).isSome = true → (r.lookup y).isSome = true) :
    r.vacant < s.vacant := by
  refine Set.ncard_lt_ncard ⟨fun y hy => ⟨hy.1, ?_⟩, fun h => ?_⟩
  · cases hold : s.lookup y with
    | none => rfl
    | some n =>
      have hkept := hkeeps y (Option.isSome_iff_exists.mpr ⟨n, hold⟩)
      rw [hy.2] at hkept
      cases hkept
  · have hnone' := (h ⟨heven, hnone⟩ : _ ∧ r.lookup x = none).2
    rw [hnone'] at hsome
    cases hsome

section

variable (hok : Closed view ok)
include hok

theorem compileFrom_compiles (hs : s.Orderly) (hx : ok x) (hnone : s.lookup x = none) {fuel : Nat}
    (hroom : (s.compileFrom view x fuel).Fits) (hfuel : s.vacant < fuel) :
    Compiles view s x (s.compileFrom view x fuel) := by
  induction fuel generalizing s x with
  | zero => exact absurd hfuel (Nat.not_lt_zero _)
  | succ fuel ih =>
    unfold compileFrom at hroom ⊢
    dsimp only at hroom ⊢
    split
    · rename_i hexecutable
      split
      · rename_i hend
        exact .terminal hexecutable hend
      · rename_i hopen
        have hopen := Bool.eq_false_iff.mpr hopen
        split
        · rename_i native hnext
          exact .joins hexecutable hopen rfl hnext
        · rename_i hnext
          simp only [hexecutable, hopen, hnext, if_true, Bool.false_eq_true, if_false] at hroom
          have haddress : (CodeUnit.instruction (view.instructionAt x)).address = x :=
            view.instructionAt_address x
          have hroom' := (lengthened_compileFrom _ view _ fuel).fits hroom
          have hcompiled := hs.instruction rfl hroom'
          have hlookup := hcompiled.lookup hs hroom' (haddress.symm ▸ hok.even x hx)
          have hfewer := vacant_lt_vacant (hok.even x hx) hnone
            ((hlookup x).mpr (.inr haddress.symm)) fun y hy => (hlookup y).mpr (.inl hy)
          exact .falls hexecutable hopen rfl hnext
            (ih (hcompiled.orderly hs) (hok.stays.falls x hx) hnext hroom (by omega))
    · rename_i hmissing
      exact .missing (Bool.eq_false_iff.mpr hmissing)

theorem compileBlock_compiles (hs : s.Orderly) (hroom : (s.compileBlock view x).2.Fits)
    (hx : ok x) : CompilesBlock view s x (s.compileBlock view x) := by
  unfold compileBlock at hroom ⊢
  dsimp only at hroom ⊢
  split
  · rename_i native hfound
    exact .found hfound
  · rename_i hnone
    have hcanonical : ok (view.canonical x) := by rw [hok.canonical x hx]; exact hx
    rw [hnone] at hroom
    exact .compiled hnone (compileFrom_compiles
      (s := { s with counters := { s.counters with blocks := s.counters.blocks + 1 } })
      hok (hs.recounted _) hcanonical hnone hroom (vacant_lt _))

theorem compilePending_links (hs : s.Orderly) (hwaits : ∀ y, s.Awaits y → ok y) {fuel : Nat}
    (hroom : (s.compilePending view fuel).Fits) (hfuel : s.vacant < fuel) :
    Links view s (s.compilePending view fuel) := by
  induction fuel generalizing s with
  | zero => exact absurd hfuel (Nat.not_lt_zero _)
  | succ fuel ih =>
    unfold compilePending at hroom ⊢
    dsimp only at hroom ⊢
    split
    · rename_i hnone
      exact .done hnone
    · rename_i link hsome
      have hlink : s.linkPending.Awaits link.target := ⟨link, Array.mem_of_getElem? hsome, rfl⟩
      obtain ⟨hold, hvacant⟩ := (awaits_linkPending s _).mp hlink
      rw [hsome] at hroom
      have hroom' := (lengthened_compilePending _ view fuel).fits hroom
      have hblock := compileBlock_compiles hok hs.linkPending hroom' (hwaits _ hold)
      obtain ⟨hextends, horderly, hfound⟩ :=
        hblock.extends hok hs.linkPending hroom' (hwaits _ hold)
      have hfewer := vacant_lt_vacant (s := s) (hok.even _ (hwaits _ hold)) hvacant hfound
        hextends.keeps
      exact .next hsome hblock
        (ih horderly (((Extends.linkPending s).trans hextends).waits hwaits) hroom (by omega))

theorem locate_locates (hs : s.Orderly) (hroom : (s.locate view x).2.Fits)
    (hx : ok (view.canonical x)) (hpending : s.pending = #[]) :
    Locates view s x (s.locate view x) := by
  unfold locate at hroom ⊢
  dsimp only at hroom ⊢
  split
  · rename_i native hfound
    exact .found hfound
  · rename_i hnone
    rw [hnone] at hroom
    have hroom' := (lengthened_compilePending _ view compileFuel).fits hroom
    have hblock := compileBlock_compiles hok hs hroom' hx
    obtain ⟨hextends, horderly, -⟩ := hblock.extends hok hs hroom' hx
    exact .compiled hnone hblock
      (compilePending_links hok horderly (hextends.waits_none hpending) hroom (vacant_lt _))

theorem locate_extends (hs : s.Orderly) (hroom : (s.locate view x).2.Fits)
    (hx : ok (view.canonical x)) (hpending : s.pending = #[]) :
    Extends view ok s (s.locate view x).2 ∧ (s.locate view x).2.pending = #[] ∧
      ((s.locate view x).2.lookup (view.canonical x)).isSome = true :=
  (locate_locates hok hs hroom hx hpending).extends hok hs hroom hx hpending

theorem refresh_refreshes (hs : s.Orderly) (hroom : (s.refresh view x).2.Fits)
    (hx : ok (view.canonical x)) (hpending : s.pending = #[]) :
    Refreshes view s x (s.refresh view x) := by
  have hroom' : ((s.renewed view (view.instructionAt (view.canonical x))).compilePending view
      compileFuel).Fits := Nat.lt_of_le_of_lt (s.size_refresh view x) hroom
  obtain ⟨hextends, horderly, -⟩ := renewed_extends hok hs
    ((lengthened_compilePending _ view compileFuel).fits hroom') hx
  have hlinks := compilePending_links hok horderly (hextends.waits_none hpending) hroom'
    (vacant_lt _)
  unfold refresh
  dsimp only
  split
  · rename_i old hold
    exact .replaced hold hlinks
  · rename_i hnone
    exact .added hnone hlinks

end

end CodeStore

/-- Where an instruction goes besides the next one, if that can be told from the instruction. A
counted branch whose condition always holds never goes there. -/
def Instruction.staticTarget? (inst : Instruction) : Option UInt32 :=
  match inst.op with
  | .bcc | .bsr => inst.branchTarget?
  | .dbcc => if inst.condition? = some .always then none else inst.branchTarget?
  | .jmp | .jsr => Codegen.staticTarget? inst.src inst.pcBase
  | _ => none

namespace Codegen

theorem targets_jumpTo (address : UInt32) (h : target &&& 1 = 0) :
    Fragment.targets (jumpTo address target) = [target] := by
  rw [jumpTo, if_pos h]
  rfl

theorem mem_targets_decrementBranch (config : Config) (hdst : inst.dst.isDataRegister = true)
    (hcondition : inst.condition? ≠ some .always) (htarget : branchTarget inst = target)
    (heven : target &&& 1 = 0) : target ∈ Fragment.targets (decrementBranch config inst) := by
  have hcount (reg : Fin 8) : target ∈ Fragment.targets (countDown config inst reg) := by
    simp [countDown, skipIf, htarget, targets_jumpTo _ heven]
  unfold decrementBranch
  split
  · dsimp only
    split
    · rename_i halways
      cases hsome : inst.condition? with
      | none => rw [hsome] at halways; cases halways
      | some condition =>
        rw [hsome] at halways hcondition
        exact absurd (congrArg some halways) hcondition
    · exact hcount _
    · simp [hcount]
  · rename_i hother
    cases hreg : inst.dst with
    | data reg => exact absurd hreg (hother reg)
    | _ => rw [hreg] at hdst; cases hdst

end Codegen

theorem Instruction.staticTarget_mem (hapt : inst.apt = true)
    (htarget : inst.staticTarget? = some target) (heven : target &&& 1 = 0) (config : Config) :
    target ∈ Fragment.targets (inst.body config) := by
  have hjump := Codegen.targets_jumpTo inst.address heven
  have hbranch (h : inst.branchTarget? = some target) : Codegen.branchTarget inst = target := by
    rw [Codegen.branchTarget, h]
    rfl
  unfold staticTarget? at htarget
  split at htarget
  case h_1 hop =>
    rw [body, hop]
    simp only [Codegen.branch, hbranch htarget]
    split
    · simp [hjump]
    · simp [Codegen.onCondition, Codegen.skipIf, hjump]
  case h_2 hop =>
    rw [body, hop]
    simp [Codegen.branchSubroutine, hbranch htarget, hjump]
  case h_3 hop =>
    split at htarget
    · cases htarget
    · rename_i hcondition
      rw [Form.apt, hop] at hapt
      rw [body, hop]
      exact Codegen.mem_targets_decrementBranch config hapt hcondition (hbranch htarget) heven
  case h_4 hop =>
    rw [body, hop]
    simp [Codegen.jump, htarget, hjump]
  case h_5 hop =>
    rw [body, hop]
    simp [Codegen.jumpSubroutine, htarget, hjump]
  case h_6 => cases htarget

namespace CodeStore

/-- Addresses of the instructions that were compiled for the first time. -/
def Adds (view : GuestView) (s s' : CodeStore) (x : UInt32) : Prop :=
  view.memory.isExecutable x = true ∧ s.lookup x = none ∧ (s'.lookup x).isSome = true

/-- No branch waits, and all that the code of some instructions leads to has an entry. -/
structure Complete (view : GuestView) (compiled : UInt32 → Prop) (s : CodeStore) : Prop where
  linked : s.pending = #[]
  falls : ∀ x, compiled x → (view.instructionAt x).isTerminal = false →
    (s.lookup (view.canonical (view.instructionAt x).nextAddress)).isSome = true
  jumps : ∀ x, compiled x → ∀ y, (view.instructionAt x).staticTarget? = some y → y &&& 1 = 0 →
    (s.lookup (view.canonical y)).isSome = true

theorem Complete.of_serves {compiled : UInt32 → Prop} (hlinked : s.pending = #[])
    (hserves : ∀ x, compiled x → s.Serves view (view.instructionAt x)) :
    Complete view compiled s where
  linked := hlinked
  falls x hx hend := ((hserves x hx).falls hend).resolve_right (not_awaits hlinked _)
  jumps x hx y hy heven := by
    have hdecoded : (view.instructionAt x).op = .invalid ∨ (view.instructionAt x).apt = true :=
      Instruction.decode_apt _ _ _
    rcases hdecoded with hinvalid | hapt
    · rw [Instruction.staticTarget?, hinvalid] at hy
      cases hy
    · exact ((hserves x hx).jumps y (Instruction.staticTarget_mem hapt hy heven view.config)).resolve_right
        (not_awaits hlinked _)

theorem Extends.serves_added (h : Extends view ok s s') (hx : Adds view s s' x) :
    s'.Serves view (view.instructionAt x) := by
  obtain ⟨hexecutable, hnone, hsome⟩ := hx
  rcases h.serves x hsome with hold | hnew
  · rw [hnone] at hold
    cases hold
  · exact hnew.2 hexecutable

end CodeStore

theorem Sole.fits {config : Config} {map : MemoryMap} {P : Pair → Prop}
    (h : Sole config map view P s) : s.Fits := by
  obtain ⟨-, pieces, hmatched, -⟩ := h
  exact hmatched.left.room

theorem Sole.closed {config : Config} {map : MemoryMap} {P : Pair → Prop}
    (h : Sole config map view P s) (heven : map.KeepsEven) :
    CodeStore.Closed view map.IsHome ∧ s.Orderly ∧ s.pending = #[] := by
  obtain ⟨hfixed, pieces, hmatched, -⟩ := h
  refine ⟨?_, ⟨hmatched.left.cursor, hmatched.left.based⟩, ?_⟩
  · exact ⟨hfixed.stays_even heven, fun _ h => h.1, fun y h => (hfixed.canonical y).trans h.2⟩
  · exact Array.toList_eq_nil_iff.mp hmatched.pendingLeft

open CodeStore

/-- Compilation ends, at every moment of an execution of a processor whose memory ranges start at
even addresses. Both ways of compiling do what their loops do without a bound, no branch waits
afterwards, and all that newly compiled instructions lead to has an entry. -/
theorem compilation_ends {cpu : Cpu} {config : Config} {memory : MemoryMap}
    (hnew : cpu.IsNew config memory) (hstarts : ∀ chunk ∈ memory.chunks, chunk.start &&& 1 = 0)
    {m : Moment} (hpath : ReflTransGen (Moment.Next fun _ => True) (.idle cpu) m)
    (hfits : m.cpu.Fits) {x : UInt32} (hx : x &&& 1 = 0) :
    let s := m.cpu.store
    let view := m.cpu.view
    ((s.locate view x).2.Fits → Locates view s x (s.locate view x) ∧
        Complete view (Adds view s (s.locate view x).2) (s.locate view x).2) ∧
      ((s.refresh view x).2.Fits → Refreshes view s x (s.refresh view x) ∧
        Complete view (fun y => y = view.canonical x ∨ Adds view s (s.refresh view x).2 y)
          (s.refresh view x).2) := by
  intro s view
  have heven := MemoryMap.keepsEven_of_starts hstarts
  let U := (Steady.tidy heven hnew.sound : Steady config memory).upkeep
  have hinitial : U.Inv cpu.view (fun _ => False) .initial :=
    ⟨fun _ hp => absurd hp not_false, fun _ hp => absurd hp not_false,
      fun _ hp => absurd hp not_false⟩
  obtain ⟨P, htracks⟩ := hnew.tracks U hinitial (fun _ _ => trivial) hpath hfits cpu.registers
  have hsole := htracks.sole.1
  obtain ⟨hclosed, horderly, hpending⟩ := hsole.closed heven
  have hhome : memory.IsHome (view.canonical x) := by
    rw [hsole.fixed.canonical]
    exact heven.isHome hnew.sound hx
  constructor
  · intro hroom
    obtain ⟨hlocated, hlinked, -⟩ := locate_extends hclosed horderly hroom hhome hpending
    exact ⟨locate_locates hclosed horderly hroom hhome hpending,
      .of_serves hlinked fun y hy => hlocated.serves_added hy⟩
  · intro hroom
    have hrefreshes := refresh_refreshes hclosed horderly hroom hhome hpending
    obtain ⟨hrefreshed, hlinked, -, hserves⟩ :=
      hrefreshes.extends hclosed horderly hroom hhome hpending
    refine ⟨hrefreshes, .of_serves hlinked ?_⟩
    rintro y (rfl | hy)
    · exact hserves
    · exact hrefreshed.serves_added hy

/-- Eight bytes of memory, which repeat: DBT to an address that nothing else leads to, and BRA to
itself. -/
def Chunk.counted : Chunk where
  start := 0
  stop := 16
  mask := 7
  access := ⟨true, true, true, false, false⟩
  backing := .buffer ⟨#[0x50, 0xC8, 0, 4, 0x60, 0, 0xFF, 0xFE]⟩

def MemoryMap.counted : MemoryMap where
  chunks := #[.counted]
  addressMask := Config.default.addressMask
  log := #[]

namespace Cpu

theorem isNew_counted : (fresh .default .counted).IsNew .default .counted where
  built := ⟨_, _, MemoryMap.build_singleton _ (by decide : (0 : UInt32) < 16) rfl (by decide)⟩
  created := rfl

theorem closed_counted :
    CodeStore.Closed (fresh .default .counted).view fun x => x = 0 ∨ x = 4 where
  stays :=
    { falls := by
        rintro x (rfl | rfl)
        · exact .inr (by decide +kernel)
        · exact .inl (by decide +kernel)
      jumps := by
        rintro x (rfl | rfl) a y hy
        · have hcounted : (fresh .default .counted).view.instructionAt 0 =
              ⟨⟨.dbcc, .word, .cond .always, .displacement 4, .data 0⟩, 0, 4⟩ := by decide +kernel
          rw [hcounted] at hy
          exact absurd hy List.not_mem_nil
        · have hbranch : (fresh .default .counted).view.instructionAt 4 =
              ⟨⟨.bcc, .word, .cond .always, .displacement (-2), .none⟩, 4, 4⟩ := by decide +kernel
          rw [hbranch] at hy
          obtain rfl := List.mem_singleton.mp hy
          exact .inr (by decide +kernel) }
  even := by rintro x (rfl | rfl) <;> rfl
  canonical := by rintro x (rfl | rfl) <;> decide +kernel

theorem fits_counted :
    (initial.locate (fresh .default .counted).view 0).2.Fits := by
  unfold CodeStore.Fits
  decide +kernel

theorem adds_counted :
    let view := (fresh .default .counted).view
    Extends view (fun x => x = 0 ∨ x = 4) .initial (CodeStore.initial.locate view 0).2 ∧
      Adds view .initial (CodeStore.initial.locate view 0).2 0 := by
  intro view
  have hcanonical : view.canonical 0 = 0 := closed_counted.canonical 0 (.inl rfl)
  obtain ⟨hextends, -, hfound⟩ := locate_extends closed_counted orderly_initial fits_counted
    (.inl hcanonical) rfl
  rw [hcanonical] at hfound
  exact ⟨hextends, by decide +kernel, CodeStore.lookup_initial 0, hfound⟩

end Cpu

/-- DBT falls through to an instruction with an entry. -/
theorem compilation_ends_counted :
    ((initial.locate (Cpu.fresh .default .counted).view 0).2.lookup 4).isSome = true := by
  have hstarts : ∀ chunk ∈ MemoryMap.counted.chunks, chunk.start &&& 1 = 0 := by
    simp [MemoryMap.counted, Chunk.counted]
  have hends := compilation_ends Cpu.isNew_counted hstarts .refl
    (show initial.code.ops.size < 2 ^ 31 by decide) (x := 0) (by decide)
  have hfalls := (hends.1 Cpu.fits_counted).2.falls 0 Cpu.adds_counted.2 (by decide +kernel)
  have hnext : (Cpu.fresh .default .counted).view.following
      ((Cpu.fresh .default .counted).view.instructionAt 0) = 4 := by decide +kernel
  rw [← hnext]
  exact hfalls

/-- Where DBT would branch to is not compiled with it. -/
theorem counted_branch_without_entry :
    let view := (Cpu.fresh .default .counted).view
    let s := (initial.locate view 0).2
    Adds view .initial s 0 ∧ (view.instructionAt 0).branchTarget? = some 6 ∧
      s.lookup (view.canonical 6) = none := by
  intro view s
  obtain ⟨hextends, hadds⟩ := Cpu.adds_counted
  refine ⟨hadds, by decide +kernel, ?_⟩
  cases hsome : s.lookup (view.canonical 6) with
  | none => rfl
  | some native =>
    rcases hextends.serves _ (Option.isSome_iff_exists.mpr ⟨native, hsome⟩) with hold | ⟨hok, -⟩
    · rw [lookup_initial] at hold
      cases hold
    · have hcanonical : view.canonical 6 = 6 := by decide +kernel
      rw [hcanonical] at hok
      exact absurd hok (by decide)

end Dynarec68k
