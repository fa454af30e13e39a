import Dynarec68k.Proofs.Compilation

namespace Dynarec68k

open Host CodeStore Piece

variable {n native : CodePtr} {s s' t t' : CodeStore} {fresh : CodeUnit → Prop}
  {view : GuestView} {pieces : List Piece} {waits : List Wait} {fuel length : Nat}
  {gap : Option CodeUnit} {a b : RegisterAssignment} {address start word x : UInt32}
  {ok : UInt32 → Prop} {leads : UInt32 → UInt32 → Prop} {install : Bool} {inst : Instruction} {r r' : CodePtr × CodeStore}

theorem Instruction.decode_address (model : Model) (address : UInt32) (words : List UInt16) :
    (Instruction.decode model address words).address = address := by
  unfold Instruction.decode Instruction.decode?
  cases (Decode.reader model).run 0 words <;> rfl

namespace GuestView

/-- What compiling a canonical address makes code of. -/
def unitAt (view : GuestView) (address : UInt32) : CodeUnit :=
  if view.memory.isExecutable address then .instruction (view.instructionAt address)
  else .missing address

theorem instructionAt_address (view : GuestView) (address : UInt32) :
    (view.instructionAt address).address = address :=
  Instruction.decode_address _ _ _

theorem unitAt_address (view : GuestView) (address : UInt32) :
    (view.unitAt address).address = address := by
  unfold unitAt
  split
  · exact view.instructionAt_address address
  · rfl

end GuestView

namespace CodeStore

/-- Numbers of the regions that hold an instruction. -/
def regionsOf (config : Config) (inst : Instruction) : List UInt32 :=
  let first := regionOf config inst.address
  let last := regionOf config (inst.address + (max inst.length 1 - 1).toUInt32)
  (List.range (last.toNat - first.toNat + 1)).map fun i => first + i.toUInt32

theorem mem_foldl_insert (list : List UInt32) (regions : Std.HashSet UInt32) (r : UInt32) :
    r ∈ list.foldl (fun regions x => regions.insert x) regions ↔ r ∈ regions ∨ r ∈ list := by
  induction list generalizing regions with
  | nil => simp
  | cons x rest ih =>
    rw [List.foldl_cons, ih, Std.HashSet.mem_insert, List.mem_cons, beq_iff_eq]
    constructor
    · rintro ((rfl | h) | h)
      · exact .inr (.inl rfl)
      · exact .inl h
      · exact .inr (.inr h)
    · rintro (h | rfl | h)
      · exact .inl (.inr h)
      · exact .inl (.inl rfl)
      · exact .inr h

theorem mem_regionsWith (view : GuestView) (inst : Instruction) (regions : Std.HashSet UInt32)
    (r : UInt32) :
    r ∈ regionsWith view inst regions ↔
      r ∈ regions ∨ view.memory.isTracked inst.address = true ∧ r ∈ regionsOf view.config inst := by
  unfold regionsWith
  split
  · rename_i htracked
    have hfold : (markRegions { initial with regions := regions } view.config inst.address
        inst.length).regions =
        (regionsOf view.config inst).foldl (fun regions x => regions.insert x) regions := by
      rw [regionsOf, List.foldl_map]
      rfl
    rw [hfold, mem_foldl_insert]
    simp only [htracked, true_and]
  · rename_i huntracked
    simp only [huntracked, Bool.false_eq_true, false_and, or_false]

end CodeStore

namespace CodeUnit

theorem mem_regionsWith (view : GuestView) (part : CodeUnit) (regions : Std.HashSet UInt32)
    (r : UInt32) :
    r ∈ part.regionsWith view regions ↔ r ∈ regions ∨ ∃ inst, part = .instruction inst ∧
      view.memory.isTracked inst.address = true ∧ r ∈ regionsOf view.config inst := by
  cases part with
  | instruction inst => simp [regionsWith, CodeStore.mem_regionsWith]
  | missing => simp [regionsWith]

theorem regionsWith_untracked (h : ∀ x, view.memory.isTracked x = false) (part : CodeUnit)
    (regions : Std.HashSet UInt32) : part.regionsWith view regions = regions := by
  cases part with
  | instruction inst => simp [regionsWith, CodeStore.regionsWith, h]
  | missing => rfl

end CodeUnit

def CodeUnit.HeadedAt (part : CodeUnit) (view : GuestView) (code : CodeBuffer) (n : Nat) : Prop :=
  code.HeadAt n (part.newKind view) part.address part.address none

/-- What compilation adds to a store. The units added satisfy `fresh`; the entry of the word
`replaced` may change, others stay as long as new units have even addresses. -/
structure Grown (view : GuestView) (fresh : CodeUnit → Prop) (replaced : Option UInt32)
    (pairs : List Pair) (s : CodeStore) (pairs' : List Pair) (s' : CodeStore) : Prop where
  keeps : ∀ q ∈ pairs, q ∈ pairs'
  heads : ∀ q ∈ pairs, ∀ i < 4, s'.code.ops[q.left + i]? = s.code.ops[q.left + i]?
  added : ∀ q ∈ pairs', q ∈ pairs ∨ fresh q.unit ∧ q.unit.HeadedAt view s'.code q.left
  entries : ∀ x n, s'.lookup x = some n → s.lookup x = some n ∨
    ∃ q ∈ pairs', q.left.toUInt32 = n ∧ q.unit.address >>> 1 = x >>> 1 ∧ fresh q.unit ∧
      q.unit.HeadedAt view s'.code q.left
  kept : (∀ u, fresh u → u.address &&& 1 = 0) → ∀ x n, s.lookup x = some n →
    replaced ≠ some (x >>> 1) → s'.lookup x = some n
  entered : (∀ u, fresh u → u.address &&& 1 = 0) → ∀ q ∈ pairs', q ∈ pairs ∨
    s'.lookup q.unit.address = some q.left.toUInt32
  stays : ∀ x, (s.lookup x).isSome = true → (s'.lookup x).isSome = true
  filled : ∀ q ∈ pairs', q ∈ pairs ∨ ∀ x : UInt32, x &&& 1 = 0 → q.unit.address >>> 1 = x >>> 1 →
    (s'.lookup x).isSome = true
  marks : ∀ r ∈ s.regions, r ∈ s'.regions
  marked : ∀ q ∈ pairs', q ∈ pairs ∨ ∀ inst, q.unit = .instruction inst →
    view.memory.isTracked inst.address = true →
      ∀ r ∈ regionsOf view.config inst, r ∈ s'.regions
  untracked : (∀ x, view.memory.isTracked x = false) → s'.regions = s.regions

namespace Grown

variable {replaced : Option UInt32}
  {pairs pairs' pairs'' : List Pair} {s'' : CodeStore}

theorem refl (view : GuestView) (fresh : CodeUnit → Prop) (replaced : Option UInt32)
    (pairs : List Pair) (s : CodeStore) : Grown view fresh replaced pairs s pairs s where
  keeps _ hq := hq
  heads _ _ _ _ := rfl
  added _ hq := .inl hq
  entries _ _ h := .inl h
  kept _ _ _ h _ := h
  entered _ _ hq := .inl hq
  stays _ h := h
  filled _ hq := .inl hq
  marks _ h := h
  marked _ hq := .inl hq
  untracked _ := rfl

theorem trans (h : Grown view fresh replaced pairs s pairs' s')
    (h' : Grown view fresh none pairs' s' pairs'' s'') :
    Grown view fresh replaced pairs s pairs'' s'' where
  keeps q hq := h'.keeps q (h.keeps q hq)
  heads q hq i hi := (h'.heads q (h.keeps q hq) i hi).trans (h.heads q hq i hi)
  added q hq := by
    rcases h'.added q hq with hq' | hnew
    · exact (h.added q hq').imp_right fun hnew => ⟨hnew.1, hnew.2.congr (h'.heads q hq')⟩
    · exact .inr hnew
  entries x n hlookup := by
    rcases h'.entries x n hlookup with hold | hnew
    · refine (h.entries x n hold).imp_right ?_
      rintro ⟨q, hq, hn, hword, hfresh, hhead⟩
      exact ⟨q, h'.keeps q hq, hn, hword, hfresh, hhead.congr (h'.heads q hq)⟩
    · exact .inr hnew
  kept heven x n hlookup hother := h'.kept heven x n (h.kept heven x n hlookup hother) nofun
  entered heven q hq := by
    rcases h'.entered heven q hq with hq' | hnew
    · exact (h.entered heven q hq').imp_right fun hnew => h'.kept heven _ _ hnew nofun
    · exact .inr hnew
  stays x hx := h'.stays x (h.stays x hx)
  filled q hq := by
    rcases h'.filled q hq with hq' | hnew
    · exact (h.filled q hq').imp_right fun hnew x hx hword => h'.stays x (hnew x hx hword)
    · exact .inr hnew
  marks r hr := h'.marks r (h.marks r hr)
  marked q hq := by
    rcases h'.marked q hq with hq' | hnew
    · exact (h.marked q hq').imp_right fun hnew inst hinst htracked r hr =>
        h'.marks r (hnew inst hinst htracked r hr)
    · exact .inr hnew
  untracked hnone := (h'.untracked hnone).trans (h.untracked hnone)

theorem congr (h : Grown view fresh replaced pairs s pairs' s') {r : CodeStore}
    (hcode : r.code = s.code) (hentries : r.entries = s.entries) (hregions : r.regions = s.regions) :
    Grown view fresh replaced pairs r pairs' s' := by
  obtain ⟨code, entries, pending, regions, counters⟩ := s
  obtain ⟨code', entries', pending', regions', counters'⟩ := r
  obtain rfl : code' = code := hcode
  obtain rfl : entries' = entries := hentries
  obtain rfl : regions' = regions := hregions
  exact ⟨h.keeps, h.heads, h.added, h.entries, h.kept, h.entered, h.stays, h.filled, h.marks,
    h.marked, h.untracked⟩

theorem of_heads (hpairs : pairs' = pairs)
    (hheads : ∀ q ∈ pairs, ∀ i < 4, s'.code.ops[q.left + i]? = s.code.ops[q.left + i]?)
    (hentries : s'.entries = s.entries) (hregions : s'.regions = s.regions) :
    Grown view fresh none pairs s pairs' s' where
  keeps q hq := hpairs ▸ hq
  heads := hheads
  added q hq := .inl (hpairs ▸ hq)
  entries x n hlookup := .inl (by rwa [lookup, hentries] at hlookup)
  kept _ x n hlookup _ := by rwa [lookup, hentries]
  entered _ q hq := .inl (hpairs ▸ hq)
  stays x hx := by rwa [lookup, hentries]
  filled q hq := .inl (hpairs ▸ hq)
  marks r hr := hregions ▸ hr
  marked q hq := .inl (hpairs ▸ hq)
  untracked _ := hregions

end Grown

namespace Noted

variable {part : CodeUnit} (h : Noted view part native install s s')
include h

theorem pages_eq :
    s'.entries.pages = (s.entries.enter install part.address native part.length).pages := by
  have hlookup (y : UInt32) : EntryTable.lookup
      { s.entries with origins := part.origins native ++ s.entries.origins } y =
        s.entries.lookup y := rfl
  rw [h.entries, EntryTable.enter_pages, EntryTable.enter_pages, hlookup]

theorem lookup_eq (x : UInt32) :
    s'.lookup x = (s.entries.enter install part.address native part.length).lookup x :=
  EntryTable.lookup_congr h.pages_eq x

end Noted

namespace Compiled

variable {part : CodeUnit} (h : Compiled view part install s s')
  (hbased : s.entries.pages.Based s.code.ops.size)
include h hbased

theorem takes (hroom : s'.Fits) : s.entries.pages.Takes s.code.ops.size.toUInt32 := by
  have hsize := h.appended.size
  refine ⟨s'.code.ops.size, hroom, hbased.mono (by omega), ?_⟩
  rw [Nat.toUInt32, UInt32.toNat_ofNat']
  exact Nat.lt_of_le_of_lt (Nat.mod_le _ _) (by omega)

theorem based : s'.entries.pages.Based s'.code.ops.size := by
  have hsize := h.appended.size
  have hlonger : s.entries.pages.Based s'.code.ops.size := hbased.mono (by omega)
  rw [h.pages_eq]
  refine EntryTable.based_enter hlonger ?_ install part.address part.length
  rw [Nat.toUInt32, UInt32.toNat_ofNat']
  exact Nat.lt_of_le_of_lt (Nat.mod_le _ _) (by omega)

end Compiled

namespace Grown

variable {pairs : List Pair}

/-- The word whose entry may change when a unit is entered: none if `install`. -/
def replacedBy (install : Bool) (address : UInt32) : Option UInt32 :=
  if install then none else some (address >>> 1)

theorem append {q : Pair} {install : Bool} (hold : ∀ p ∈ pairs, p.left + 4 ≤ s.code.ops.size)
    (hs : Compiled (view.assign a) q.unit install s s') (hleft : q.left = s.code.ops.size)
    (htakes : s.entries.pages.Takes s.code.ops.size.toUInt32) (hfresh : fresh q.unit)
    (hnew : install = true → s.lookup q.unit.address = none) :
    Grown view fresh (replacedBy install q.unit.address) pairs s (q :: pairs) s' where
  keeps p hp := List.mem_cons_of_mem _ hp
  heads p hp i hi := hs.appended.old _ (by have := hold p hp; omega)
  added := List.forall_mem_cons.mpr
    ⟨.inr ⟨hfresh, hleft ▸ hs.appended.head⟩, fun p hp => .inl hp⟩
  entries x n hlookup := by
    rw [hs.lookup_eq] at hlookup
    rcases EntryTable.lookup_enter htakes hlookup with hfound | ⟨hn, hword⟩
    · exact .inl hfound
    · exact .inr ⟨q, List.mem_cons_self, hleft ▸ hn, hword, hfresh, hleft ▸ hs.appended.head⟩
  kept heven x n hlookup hother := by
    rw [hs.lookup_eq]
    refine EntryTable.lookup_enter_of_ne htakes hlookup fun hword => ?_
    cases install with
    | false => exact hother (congrArg some hword)
    | true =>
      -- The unit and the entry would have the same even address.
      have hslot := (EntryTable.lookup_eq_some.mp hlookup).2
      rw [← hword] at hslot
      have hsome := EntryTable.lookup_eq_some.mpr ⟨heven _ hfresh, hslot⟩
      rw [lookup] at hnew
      rw [hnew rfl] at hsome
      exact absurd hsome.symm (Option.some_ne_none n)
  entered heven := by
    refine List.forall_mem_cons.mpr ⟨?_, fun p hp => .inl hp⟩
    rw [hs.lookup_eq, hleft]
    exact .inr (EntryTable.lookup_enter_self htakes (heven _ hfresh) hnew)
  stays x hsome := by
    obtain ⟨n, hn⟩ := Option.isSome_iff_exists.mp hsome
    rw [hs.lookup_eq]
    exact EntryTable.isSome_enter htakes install _ (EntryTable.lookup_eq_some.mp hn).1 (.inl hsome)
  filled := by
    refine List.forall_mem_cons.mpr ⟨.inr fun x hx hword => ?_, fun p hp => .inl hp⟩
    rw [hs.lookup_eq]
    exact EntryTable.isSome_enter htakes install _ hx (.inr hword)
  marks r hr := by
    rw [hs.regions, CodeUnit.mem_regionsWith]
    exact .inl hr
  marked := by
    refine List.forall_mem_cons.mpr ⟨.inr fun inst hinst htracked r hr => ?_, fun p hp => .inl hp⟩
    rw [hs.regions, CodeUnit.mem_regionsWith]
    exact .inr ⟨inst, hinst, htracked, hr⟩
  untracked hnone := hs.regions.trans (CodeUnit.regionsWith_untracked hnone _ _)

end Grown

namespace Matched

theorem lookup_isSome (h : Matched view a b leads gap pieces waits s t) (x : UInt32) :
    (s.entries.lookup x).isSome = (t.entries.lookup x).isSome := by
  have hlookup := h.lookup x
  simp only [CodeStore.lookup] at hlookup
  rcases hlookup with ⟨hs, ht⟩ | ⟨p, -, -, -, hs, ht⟩
  · rw [hs, ht]
  · rw [hs, ht]
    rfl

theorem heads_within (h : Matched view a b leads gap pieces waits s t) :
    ∀ p ∈ pieces.map toPair, p.left + 4 ≤ s.code.ops.size := by
  intro p hp
  obtain ⟨q, hq, rfl⟩ := List.mem_map.mp hp
  have hwithin := h.left.within q hq
  unfold size at hwithin
  omega

theorem mem_appended_waits {p : Piece} {entries : EntryTable} {w : Wait}
    (hw : w ∈ waits ++ p.waits view a b entries) :
    w ∈ waits ∨ ∃ y ∈ Fragment.targets (p.rest (view.config.assign a)),
      w.target = view.canonical y := by
  refine (List.mem_append.mp hw).imp_right fun hnew => ?_
  obtain ⟨e, he, rfl⟩ := List.mem_map.mp hnew
  refine ⟨e.1.2, ?_, rfl⟩
  rw [← Fragment.gotos_targets (p.left + 4)]
  exact List.mem_map_of_mem (List.of_mem_zip (List.mem_filter.mp he).1).1

theorem recount (h : Matched view a b leads gap pieces waits s t) (c d : CompileCounters) :
    Matched view a b leads gap pieces waits { s with counters := c } { t with counters := d } :=
  h.congr _ _ ⟨rfl, rfl, rfl, rfl, rfl⟩ ⟨rfl, rfl, rfl, rfl, rfl⟩

theorem compiled (h : Matched view a b leads gap pieces waits s t) (hleads : view.Leads leads)
    (hsettled : view.Settled) {part : CodeUnit} (hshaped : part.Shaped) (hfresh : fresh part)
    (hnew : install = true → s.lookup part.address = none)
    (hgap : ∀ u, gap = some u → leads u.next (part.address >>> 1))
    (hjumps : ∀ y ∈ Fragment.targets (part.body (view.config.assign a)), ok (view.canonical y))
    (hwaits : ∀ w ∈ waits, ok w.target) (hs : Compiled (view.assign a) part install s s')
    (ht : Compiled (view.assign b) part install t t') (hroom : s'.Fits) (hroom' : t'.Fits) :
    ∃ waits', Matched view a b leads (openEnd part)
        (⟨⟨s.code.ops.size, t.code.ops.size, part⟩, false⟩ :: pieces) waits' s' t' ∧
      (∀ w ∈ waits', ok w.target) ∧
      Grown view fresh (Grown.replacedBy install part.address) (pieces.map toPair) s
        (⟨s.code.ops.size, t.code.ops.size, part⟩ :: pieces.map toPair) s' := by
  have htakes := hs.takes h.left.based hroom
  have htakes' := ht.takes h.right.based hroom'
  refine ⟨_, h.append hleads hsettled hs.appended ht.appended hroom hroom'
    (hs.based h.left.based) (ht.based h.right.based) hshaped hgap ?_ ?_ ?_, fun w hw => ?_, ?_⟩
  · rw [hs.regions, ht.regions, h.regions]
    cases part <;> rfl
  · rw [hs.endless, ht.endless, h.endless]
  · rw [hs.entries, ht.entries]
    exact TablesAgree.enter
      (s := { s.entries with origins := part.origins s.code.ops.size.toUInt32 ++ _ })
      (t := { t.entries with origins := part.origins t.code.ops.size.toUInt32 ++ _ })
      (p := ⟨s.code.ops.size, t.code.ops.size, part⟩)
      (TablesAgree.mono h.slots fun p hp => List.mem_cons_of_mem _ hp) List.mem_cons_self htakes
      htakes' install (h.lookup_isSome part.address) part.length
  · rcases mem_appended_waits hw with hold | ⟨y, hy, htarget⟩
    · exact hwaits w hold
    · rw [htarget]
      exact hjumps y (by simpa [rest] using hy)
  · exact Grown.append (q := ⟨s.code.ops.size, t.code.ops.size, part⟩) h.heads_within hs rfl htakes
      hfresh hnew

end Matched

namespace CodeStore

variable (s : CodeStore) (view : GuestView)

theorem lengthened_emitLink (target : UInt32) : Lengthened s (s.emitLink target) := by
  have hemit := CodeBuffer.size_emitAll s.code
  unfold emitLink
  split
  · exact ⟨hemit [_], rfl⟩
  · exact ⟨hemit [_], rfl⟩

theorem lengthened_compileInstruction (inst : Instruction) (native : CodePtr) (fresh : Bool) :
    Lengthened s (s.compileInstruction view inst native fresh) := by
  have hemit := lengthened_emitFragment
    { s with entries := s.entries.recordOrigin native inst.address } view.canonical
    (inst.code view.config)
  rw [compileInstruction_eq]
  dsimp only
  split
  · have hset := lengthened_setBreakpoint { s.emitInstruction view inst native with
      entries := (s.entries.recordOrigin native inst.address).enter fresh inst.address native
        inst.length
      regions := regionsWith view inst s.regions
      counters := { s.counters with instructions := s.counters.instructions + 1 } } inst.address
      native
    exact ⟨Nat.le_trans hemit.size hset.size, hset.endless.trans hemit.endless⟩
  · exact ⟨hemit.size, hemit.endless⟩

theorem lengthened_compileMissing (address : UInt32) (native : CodePtr) :
    Lengthened s (s.compileMissing view address native) := by
  have hemit := s.lengthened_emitFragment view.canonical (Codegen.missing address)
  exact ⟨hemit.size, hemit.endless⟩

theorem lengthened_compileFrom (address : UInt32) (fuel : Nat) :
    Lengthened s (s.compileFrom view address fuel) := by
  induction fuel generalizing s address with
  | zero => exact .refl s
  | succ fuel ih =>
    dsimp only [compileFrom]
    split
    · refine (s.lengthened_compileInstruction view (view.instructionAt address)
        s.code.here true).trans ?_
      split
      · exact .refl _
      · split
        · exact ⟨CodeBuffer.size_emitAll _ [_], rfl⟩
        · exact ih _ _
    · exact s.lengthened_compileMissing view address s.code.here

theorem size_linkPending : s.linkPending.code.ops.size = s.code.ops.size := by
  obtain ⟨code, entries, pending, regions, counters, endless⟩ := s
  have hpatch (code : CodeBuffer) (site target : CodePtr) :
      (code.patchBranch site target).ops.size = code.ops.size := by
    unfold CodeBuffer.patchBranch
    split <;> simp [CodeBuffer.replace, CodeBuffer.noteOverwritten]
  change (linkAll entries pending code).ops.size = code.ops.size
  rw [linkAll, ← Array.foldl_toList]
  induction pending.toList generalizing code with
  | nil => rfl
  | cons link rest ih =>
    rw [List.foldl_cons, ih]
    split
    · exact hpatch _ _ _
    · rfl

theorem lengthened_linkPending : Lengthened s s.linkPending :=
  ⟨s.size_linkPending.ge, rfl⟩

theorem lengthened_compileBlock (start : UInt32) : Lengthened s (s.compileBlock view start).2 := by
  dsimp only [compileBlock]
  split
  · exact .refl s
  · have hcompile := lengthened_compileFrom
      { s with counters := { s.counters with blocks := s.counters.blocks + 1 } } view
      (view.canonical start) compileFuel
    exact ⟨hcompile.size, hcompile.endless⟩

theorem lengthened_compilePending (fuel : Nat) : Lengthened s (s.compilePending view fuel) := by
  induction fuel generalizing s with
  | zero => exact .refl s
  | succ fuel ih =>
    dsimp only [compilePending]
    split
    · exact s.lengthened_linkPending
    · refine .trans ?_ (ih _)
      exact s.lengthened_linkPending.trans (s.linkPending.lengthened_compileBlock view _)

theorem fits_before_pending {s : CodeStore} {view : GuestView} (h : s' = s.compilePending view fuel)
    (hfits : s'.Fits) : s.Fits :=
  Nat.lt_of_le_of_lt (s.lengthened_compilePending view fuel).size (h ▸ hfits)

end CodeStore

namespace GuestView

/-- Addresses that compilation does not leave: what instructions among them fall through or jump
to is among them. -/
structure Stays (view : GuestView) (ok : UInt32 → Prop) : Prop where
  falls : ∀ x, ok x → ok (view.canonical (view.instructionAt x).nextAddress)
  jumps : ∀ x, ok x → ∀ a, ∀ y ∈ Fragment.targets
    ((view.instructionAt x).body (view.config.assign a)), ok (view.canonical y)

/-- Code is compiled at the addresses `ok`, from units that are `fresh`. -/
structure Compiling (view : GuestView) (leads : UInt32 → UInt32 → Prop) (ok : UInt32 → Prop)
    (fresh : CodeUnit → Prop) : Prop where
  leads : view.Leads leads
  settled : view.Settled
  stays : view.Stays ok
  fresh : ∀ x, ok x → fresh (view.unitAt x)

end GuestView

namespace CodeStore

/-- Close the end of an instruction that was just compiled, unless nothing falls through it. -/
def finish (s : CodeStore) (view : GuestView) (inst : Instruction) : CodeStore :=
  if inst.isTerminal then s else s.emitLink (view.following inst)

theorem lengthened_finish (s : CodeStore) (view : GuestView) (inst : Instruction) :
    Lengthened s (s.finish view inst) := by
  unfold finish
  split
  · exact .refl s
  · exact s.lengthened_emitLink _

/-- An instruction compiled again, before the branches that wait are linked. -/
def renewed (view : GuestView) (s : CodeStore) (inst : Instruction) : CodeStore :=
  (compileInstruction
    { s with counters := { s.counters with recompiled := s.counters.recompiled + 1 } } view inst
    s.code.here false).finish view inst

theorem recompile_eq (s : CodeStore) (view : GuestView) (inst : Instruction) :
    s.recompile view inst s.code.here = (s.renewed view inst).compilePending view compileFuel :=
  rfl

theorem compileFrom_succ (s : CodeStore) (view : GuestView) (address : UInt32) (fuel : Nat) :
    s.compileFrom view address (fuel + 1) =
      if view.memory.isExecutable address then
        let inst := view.instructionAt address
        let s' := s.compileInstruction view inst s.code.here true
        if inst.isTerminal || (s'.lookup (view.following inst)).isSome then s'.finish view inst
        else s'.compileFrom view (view.following inst) fuel
      else s.compileMissing view address s.code.here := by
  dsimp only [compileFrom, finish]
  split
  · split
    · rename_i hterminal
      simp only [hterminal, Bool.true_or, if_true]
    · rename_i hopen
      split
      · rename_i hsome
        simp only [hsome, Option.isSome_some, Bool.or_true, if_true, hopen, emitLink]
      · rename_i hnone
        simp only [hnone, Option.isSome_none, Bool.or_false, hopen, if_false, Bool.false_eq_true]
  · rfl

end CodeStore

namespace Matched

theorem compileAt (h : Matched view a b leads gap pieces waits s t)
    (hview : view.Compiling leads ok fresh) (hx : ok x) (hinst : inst = view.instructionAt x)
    (hfresh : fresh (.instruction inst)) (hnew : install = true → s.lookup x = none)
    (hgap : ∀ u, gap = some u → leads u.next (x >>> 1)) (hwaits : ∀ w ∈ waits, ok w.target)
    (hs : s' = s.compileInstruction (view.assign a) inst s.code.here install)
    (ht : t' = t.compileInstruction (view.assign b) inst t.code.here install) (hroom : s'.Fits)
    (hroom' : t'.Fits) :
    ∃ waits', Matched view a b leads (openEnd (.instruction inst))
        (⟨⟨s.code.ops.size, t.code.ops.size, .instruction inst⟩, false⟩ :: pieces) waits' s' t' ∧
      (∀ w ∈ waits', ok w.target) ∧
      Grown view fresh (Grown.replacedBy install x) (pieces.map toPair) s
        (⟨s.code.ops.size, t.code.ops.size, .instruction inst⟩ :: pieces.map toPair) s' := by
  obtain rfl : inst.address = x := hinst ▸ view.instructionAt_address x
  have hshaped : (CodeUnit.instruction inst).Shaped := hinst ▸ CodeUnit.decode_shaped _ _ _
  have hjumps := hview.stays.jumps _ hx a
  rw [← hinst] at hjumps
  exact h.compiled hview.leads hview.settled hshaped hfresh hnew hgap hjumps hwaits
    (compiled_instruction inst install h.left.cursor hs hroom)
    (compiled_instruction inst install h.right.cursor ht hroom') hroom hroom'

theorem finish {n m : Nat}
    (h : Matched view a b leads (openEnd (.instruction inst))
      (⟨⟨n, m, .instruction inst⟩, false⟩ :: pieces) waits s t)
    (hview : view.Compiling leads ok fresh) (hwaits : ∀ w ∈ waits, ok w.target)
    (hnext : ok (view.canonical inst.nextAddress)) (hs : s' = s.finish (view.assign a) inst)
    (ht : t' = t.finish (view.assign b) inst) (hroom : s'.Fits) (hroom' : t'.Fits) :
    ∃ pieces' waits', Matched view a b leads none pieces' waits' s' t' ∧
      (∀ w ∈ waits', ok w.target) ∧
      pieces'.map toPair = ⟨n, m, .instruction inst⟩ :: pieces.map toPair ∧
      Grown view fresh none (pieces'.map toPair) s (pieces'.map toPair) s' := by
  have hfollowing (c : RegisterAssignment) : (view.assign c).following inst =
      view.canonical (CodeUnit.instruction inst).next := rfl
  simp only [CodeStore.finish, hfollowing] at hs ht
  by_cases hterminal : inst.isTerminal = true
  · have hend : openEnd (.instruction inst) = none := by
      simp [openEnd, CodeUnit.falls, hterminal]
    rw [hend] at h
    rw [if_pos hterminal] at hs ht
    rw [hs, ht]
    exact ⟨_, waits, h, hwaits, rfl, .refl _ _ _ _ _⟩
  · have hfalls : (CodeUnit.instruction inst).falls = true := by
      simp [CodeUnit.falls, hterminal]
    have hend : openEnd (.instruction inst) = some (.instruction inst) := if_pos hfalls
    rw [hend] at h
    rw [if_neg hterminal] at hs ht
    subst hs ht
    obtain ⟨waits', hclosed, hsub⟩ := h.close hview.leads hview.settled hfalls hroom hroom'
    refine ⟨_, waits', hclosed, fun w hw => ?_, rfl, ?_⟩
    · rcases hsub w hw with hold | htarget
      · exact hwaits w hold
      · exact htarget ▸ hnext
    · rw [emitLink_eq h.left.cursor]
      refine .of_heads rfl (fun q hq i hi => ?_) rfl rfl
      have hwithin := h.heads_within q hq
      have hlt : q.left + i < s.code.ops.size := by omega
      simp only [Array.getElem?_push_lt hlt, Array.getElem?_eq_getElem hlt]

theorem compileFrom (h : Matched view a b leads gap pieces waits s t)
    (hview : view.Compiling leads ok fresh) (haddress : ok address) (hnew : s.lookup address = none)
    (hgap : ∀ u, gap = some u → leads u.next (address >>> 1)) (hwaits : ∀ w ∈ waits, ok w.target)
    (hfuel : 2 ^ 32 ≤ s.code.ops.size + fuel) (hs : s' = s.compileFrom (view.assign a) address fuel)
    (ht : t' = t.compileFrom (view.assign b) address fuel) (hroom : s'.Fits) (hroom' : t'.Fits) :
    ∃ pieces' waits', Matched view a b leads none pieces' waits' s' t' ∧
      (∀ w ∈ waits', ok w.target) ∧
      Grown view fresh none (pieces.map toPair) s (pieces'.map toPair) s' ∧
      ⟨s.code.ops.size, t.code.ops.size, view.unitAt address⟩ ∈ pieces'.map toPair := by
  induction fuel generalizing gap pieces waits s t address with
  | zero =>
    have hsmall := h.left.room
    omega
  | succ fuel ih =>
    have hunit := hview.fresh address haddress
    unfold GuestView.unitAt at hunit ⊢
    rw [compileFrom_succ] at hs ht
    have hsame (c : RegisterAssignment) : (view.assign c).memory = view.memory := rfl
    have hinst (c : RegisterAssignment) :
        (view.assign c).instructionAt address = view.instructionAt address := rfl
    by_cases hexec : view.memory.isExecutable address = true
    · simp only [hsame, hexec, if_true, hinst] at hunit hs ht ⊢
      have hsize {r r' : CodeStore} {x : UInt32} {v : GuestView} {p : Prop} [Decidable p]
          {inst : Instruction} (hr : r' = if p then r.finish v inst else r.compileFrom v x fuel)
          (hfits : r'.Fits) : r.Fits := by
        refine Nat.lt_of_le_of_lt ?_ hfits
        rw [hr]
        split
        · exact (lengthened_finish _ _ _).size
        · exact (lengthened_compileFrom _ _ _ _).size
      obtain ⟨waits', hcompiled, hok, hgrown⟩ := h.compileAt hview haddress rfl hunit
        (fun _ => hnew) hgap hwaits rfl rfl (hsize hs hroom) (hsize ht hroom')
      generalize s.compileInstruction (view.assign a) (view.instructionAt address)
        s.code.here true = r at *
      generalize t.compileInstruction (view.assign b) (view.instructionAt address)
        t.code.here true = r' at *
      have hfollows := hview.stays.falls address haddress
      have hlookup := hcompiled.lookup_isSome (view.canonical
        (view.instructionAt address).nextAddress)
      change (r.lookup ((view.assign a).following (view.instructionAt address))).isSome =
        (r'.lookup ((view.assign b).following (view.instructionAt address))).isSome at hlookup
      rw [← hlookup] at ht
      split at hs
      · rename_i hend
        rw [if_pos hend] at ht
        obtain ⟨pieces', waits'', hclosed, hok', hpairs, hgrown'⟩ :=
          hcompiled.finish hview hok hfollows hs ht hroom hroom'
        rw [hpairs] at hgrown'
        refine ⟨pieces', waits'', hclosed, hok', ?_⟩
        rw [hpairs]
        exact ⟨hgrown.trans hgrown', List.mem_cons_self⟩
      · rename_i hend
        rw [if_neg hend] at ht
        have hnext : r.lookup (view.canonical (view.instructionAt address).nextAddress) =
            none := by
          simp only [Bool.or_eq_true, not_or, Bool.not_eq_true, Option.isSome_eq_false_iff,
            Option.isNone_iff_eq_none] at hend
          exact hend.2
        have hlonger : s.code.ops.size + 4 ≤ r.code.ops.size :=
          hcompiled.heads_within _ List.mem_cons_self
        have hopen : ∀ u, openEnd (.instruction (view.instructionAt address)) = some u →
            leads u.next (view.canonical (view.instructionAt address).nextAddress >>> 1) := by
          intro u hu
          unfold openEnd at hu
          split at hu
          · rw [← Option.some.inj hu]
            exact hview.leads _
          · exact absurd hu.symm (Option.some_ne_none u)
        obtain ⟨pieces', waits'', hmatched, hok', hgrown', -⟩ :=
          ih hcompiled hfollows hnext hopen hok (by omega) hs ht
        exact ⟨pieces', waits'', hmatched, hok', hgrown.trans hgrown',
          hgrown'.keeps _ List.mem_cons_self⟩
    · simp only [hsame, hexec, Bool.false_eq_true, if_false] at hunit hs ht ⊢
      obtain ⟨waits', hmissing, hok, hgrown⟩ := h.compiled hview.leads hview.settled
        (show (CodeUnit.missing address).Shaped from trivial) hunit (fun _ => hnew) hgap
        (List.forall_mem_nil _) hwaits
        (compiled_missing address h.left.cursor hs)
        (compiled_missing address h.right.cursor ht) hroom hroom'
      exact ⟨_, waits', hmissing, hok, hgrown, List.mem_cons_self⟩

end Matched

theorem CodeStore.compileBlock_eq (view : GuestView) (hcursor : s.code.cursor = none)
    (hnew : s.lookup (view.canonical start) = none) :
    s.compileBlock view start =
      (s.code.ops.size.toUInt32,
        compileFrom { s with counters := { s.counters with blocks := s.counters.blocks + 1 } }
          view (view.canonical start) compileFuel) := by
  simp only [compileBlock, hnew, CodeBuffer.here, hcursor, Option.getD_none]

theorem CodeStore.linkAll_outside (entries : EntryTable) (links : Array PendingLink)
    (code : CodeBuffer) {i : Nat} (hi : ∀ link ∈ links.toList, link.site.toNat ≠ i) :
    (linkAll entries links code).ops[i]? = code.ops[i]? := by
  have hreplace (code : CodeBuffer) {n : Nat} (hn : n ≠ i) (op : Host.Op) :
      (code.replace n op).ops[i]? = code.ops[i]? :=
    Array.getElem?_setIfInBounds_ne hn
  have hpatch (code : CodeBuffer) {site : CodePtr} (hsite : site.toNat ≠ i) (target : CodePtr) :
      (code.patchBranch site target).ops[i]? = code.ops[i]? := by
    unfold CodeBuffer.patchBranch
    split
    · exact hreplace code hsite _
    · exact hreplace code hsite _
    · exact hreplace code hsite _
    · rfl
  rw [linkAll, ← Array.foldl_toList]
  generalize links.toList = list at hi ⊢
  induction list generalizing code with
  | nil => rfl
  | cons link rest ih =>
    rw [List.foldl_cons, ih _ (fun l hl => hi l (List.mem_cons_of_mem _ hl))]
    split
    · exact hpatch code (hi link List.mem_cons_self) _
    · rfl

namespace Matched

theorem grown_linkPending (fresh : CodeUnit → Prop)
    (h : Matched view a b leads gap pieces waits s t) :
    Grown view fresh none (pieces.map toPair) s (pieces.map toPair) s.linkPending := by
  refine .of_heads rfl (fun q hq i hi => ?_) rfl rfl
  obtain ⟨p, hp, rfl⟩ := List.mem_map.mp hq
  refine linkAll_outside s.entries s.pending s.code fun link hlink => ?_
  rw [h.pendingLeft] at hlink
  obtain ⟨w, hw, rfl⟩ := List.mem_map.mp hlink
  obtain ⟨r, hr, e, he, hleft, -, -⟩ := h.waiting w hw
  -- A branch that waits is a jump, and jumps lie behind heads.
  have hbehind := h.jumps_behind_left hr hp he
  obtain ⟨j, hj, hitem⟩ := jumps_left he
  obtain ⟨hlt, -⟩ := List.getElem?_eq_some_iff.mp hitem
  have hwithin := h.left.within r hr
  have hroom := h.left.room
  unfold size at hwithin
  have hsite : w.leftLink.site.toNat = w.left := by
    simp only [Wait.leftLink, Nat.toUInt32, UInt32.toNat_ofNat']
    exact Nat.mod_eq_of_lt (by omega)
  rw [hsite, hleft]
  omega

theorem pending_first (h : Matched view a b leads gap pieces waits s t) :
    s.pending[0]? = waits.head?.map Wait.leftLink ∧
      t.pending[0]? = waits.head?.map Wait.rightLink := by
  rw [← Array.getElem?_toList, ← Array.getElem?_toList, h.pendingLeft, h.pendingRight]
  cases waits <;> exact ⟨rfl, rfl⟩

theorem compileBlock (h : Matched view a b leads none pieces waits s t)
    (hview : view.Compiling leads ok fresh) (haddress : ok (view.canonical start))
    (hnew : s.lookup (view.canonical start) = none) (hwaits : ∀ w ∈ waits, ok w.target)
    (hs : r = s.compileBlock (view.assign a) start) (ht : r' = t.compileBlock (view.assign b) start)
    (hroom : r.2.Fits) (hroom' : r'.2.Fits) :
    r.1 = s.code.ops.size.toUInt32 ∧ r'.1 = t.code.ops.size.toUInt32 ∧
      ∃ pieces' waits', Matched view a b leads none pieces' waits' r.2 r'.2 ∧
        (∀ w ∈ waits', ok w.target) ∧
        Grown view fresh none (pieces.map toPair) s (pieces'.map toPair) r.2 ∧
        ⟨s.code.ops.size, t.code.ops.size, view.unitAt (view.canonical start)⟩ ∈
          pieces'.map toPair := by
  have hnew' : t.lookup (view.canonical start) = none := by
    have hsome := h.lookup_isSome (view.canonical start)
    simp only [CodeStore.lookup] at hnew ⊢
    rw [hnew] at hsome
    simpa using hsome.symm
  have hfuel : 2 ^ 32 ≤ s.code.ops.size + compileFuel := Nat.le_add_left _ _
  rw [compileBlock_eq (view.assign a) h.left.cursor hnew] at hs
  rw [compileBlock_eq (view.assign b) h.right.cursor hnew'] at ht
  generalize compileFuel = fuel at *
  subst hs ht
  have hcounted := h.recount { s.counters with blocks := s.counters.blocks + 1 }
    { t.counters with blocks := t.counters.blocks + 1 }
  obtain ⟨pieces', waits', hmatched, hok, hgrown, hmem⟩ := hcounted.compileFrom hview haddress hnew
    (fun u hu => absurd hu.symm (Option.some_ne_none u)) hwaits hfuel rfl rfl hroom hroom'
  exact ⟨rfl, rfl, pieces', waits', hmatched, hok, hgrown.congr rfl rfl rfl, hmem⟩

theorem compilePending (h : Matched view a b leads none pieces waits s t)
    (hview : view.Compiling leads ok fresh) (hwaits : ∀ w ∈ waits, ok w.target)
    (hfuel : 2 ^ 32 ≤ s.code.ops.size + fuel) (hs : s' = s.compilePending (view.assign a) fuel)
    (ht : t' = t.compilePending (view.assign b) fuel) (hroom : s'.Fits) (hroom' : t'.Fits) :
    ∃ pieces', Matched view a b leads none pieces' [] s' t' ∧
      Grown view fresh none (pieces.map toPair) s (pieces'.map toPair) s' := by
  induction fuel generalizing pieces waits s t with
  | zero =>
    have hsmall := h.left.room
    omega
  | succ fuel ih =>
    have hlinked := h.linkPending
    have hgrown := h.grown_linkPending fresh
    obtain ⟨hfirst, hfirst'⟩ := hlinked.pending_first
    have hsize := s.size_linkPending
    dsimp only [compilePending] at hs ht
    rw [hfirst] at hs
    rw [hfirst'] at ht
    cases hremaining : waits.filter fun w => (s.lookup w.target).isNone with
    | nil =>
      rw [hremaining] at hlinked hs ht
      rw [hs, ht]
      exact ⟨pieces, hlinked, hgrown⟩
    | cons w rest =>
      simp only [hremaining, List.head?_cons, Option.map_some] at hs ht
      rw [hremaining] at hlinked
      have hmem : w ∈ waits.filter fun w => (s.lookup w.target).isNone := by
        rw [hremaining]
        exact List.mem_cons_self
      have hnew : s.linkPending.lookup w.target = none := by
        change s.lookup w.target = none
        simpa using (List.mem_filter.mp hmem).2
      have hsettle : view.canonical w.target = w.target :=
        h.settled w (List.mem_filter.mp hmem).1
      have hok : ∀ v ∈ w :: rest, ok v.target := by
        rw [← hremaining]
        exact fun v hv => hwaits v (List.mem_filter.mp hv).1
      obtain ⟨-, -, pieces', waits', hblock, hok', hgrown', hstart⟩ :=
        hlinked.compileBlock hview (hsettle.symm ▸ hok w List.mem_cons_self) (hsettle.symm ▸ hnew)
          hok rfl rfl (fits_before_pending hs hroom)
          (fits_before_pending ht hroom')
      have hwithin := hblock.heads_within _ hstart
      obtain ⟨pieces'', hdone, hgrown''⟩ := ih hblock hok' (by simp only at hwithin; omega) hs ht
      exact ⟨pieces'', hdone, (hgrown.trans hgrown').trans hgrown''⟩

end Matched

namespace Matched

theorem locate (h : Matched view a b leads none pieces [] s t)
    (hview : view.Compiling leads ok fresh) (hx : ok (view.canonical x))
    (hs : r = s.locate (view.assign a) x) (ht : r' = t.locate (view.assign b) x) (hroom : r.2.Fits)
    (hroom' : r'.2.Fits) :
    ∃ pieces' q, Matched view a b leads none pieces' [] r.2 r'.2 ∧
      Grown view fresh none (pieces.map toPair) s (pieces'.map toPair) r.2 ∧
      q ∈ pieces'.map toPair ∧ q.unit.address >>> 1 = view.canonical x >>> 1 ∧
      r.1 = q.left.toUInt32 ∧ r'.1 = q.right.toUInt32 := by
  have hcanonical (c : RegisterAssignment) (y : UInt32) :
      (view.assign c).canonical y = view.canonical y := rfl
  simp only [CodeStore.locate, hcanonical] at hs ht
  rcases h.lookup (view.canonical x) with ⟨hnone, hnone'⟩ | ⟨q, hq, hword, -, hsome, hsome'⟩
  · have hagain := hview.settled x
    rw [hnone] at hs
    rw [hnone'] at ht
    subst hs ht
    obtain ⟨hnative, hnative', pieces', waits', hblock, hok, hgrown, hmem⟩ :=
      h.compileBlock hview (hagain.symm ▸ hx : ok (view.canonical (view.canonical x)))
        (hagain.symm ▸ hnone) (List.forall_mem_nil _) rfl rfl
        (fits_before_pending rfl hroom) (fits_before_pending rfl hroom')
    obtain ⟨pieces'', hdone, hgrown'⟩ :=
      hblock.compilePending hview hok (Nat.le_add_left _ _) rfl rfl hroom hroom'
    refine ⟨pieces'', _, hdone, hgrown.trans hgrown', hgrown'.keeps _ hmem, ?_, hnative, hnative'⟩
    rw [GuestView.unitAt_address, hagain]
  · rw [hsome] at hs
    rw [hsome'] at ht
    subst hs ht
    exact ⟨pieces, q, h, .refl _ _ _ _ _, hq, hword, rfl, rfl⟩

theorem recompile (h : Matched view a b leads none pieces [] s t)
    (hview : view.Compiling leads ok fresh) (hx : ok x)
    (hagain : fresh (.instruction (view.instructionAt x)))
    (hs : s' = s.recompile (view.assign a) (view.instructionAt x) s.code.here)
    (ht : t' = t.recompile (view.assign b) (view.instructionAt x) t.code.here) (hroom : s'.Fits)
    (hroom' : t'.Fits) :
    ∃ pieces', Matched view a b leads none pieces' [] s' t' ∧
      Grown view fresh (some (x >>> 1)) (pieces.map toPair) s (pieces'.map toPair) s' ∧
      ⟨s.code.ops.size, t.code.ops.size, .instruction (view.instructionAt x)⟩ ∈
        pieces'.map toPair := by
  rw [recompile_eq] at hs ht
  have hfinish := fits_before_pending hs hroom
  have hfinish' := fits_before_pending ht hroom'
  obtain ⟨waits', hcompiled, hok, hgrown⟩ := (h.recount _ _).compileAt hview hx rfl hagain
    (fun h : false = true => absurd h Bool.false_ne_true)
    (fun u hu => absurd hu.symm (Option.some_ne_none u)) (List.forall_mem_nil _)
    rfl rfl (Nat.lt_of_le_of_lt (lengthened_finish _ _ _).size hfinish)
    (Nat.lt_of_le_of_lt (lengthened_finish _ _ _).size hfinish')
  obtain ⟨pieces', waits'', hclosed, hok', hpairs, hgrown'⟩ :=
    hcompiled.finish hview hok (hview.stays.falls x hx) rfl rfl hfinish hfinish'
  obtain ⟨pieces'', hdone, hgrown''⟩ :=
    hclosed.compilePending hview hok' (Nat.le_add_left _ _) hs ht hroom hroom'
  rw [hpairs] at hgrown' hgrown''
  exact ⟨pieces'', hdone, ((hgrown.trans hgrown').trans hgrown'').congr rfl rfl rfl,
    hgrown''.keeps _ List.mem_cons_self⟩

end Matched

end Dynarec68k
