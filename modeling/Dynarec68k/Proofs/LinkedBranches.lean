import Dynarec68k.Proofs.CodeOrigins
import Dynarec68k.Proofs.SampleRuns

namespace Dynarec68k

open Host Relation

variable {past : List Moment} {x : UInt32} {n : CodePtr}

/-- A position was at some moment the entry of an address. -/
def WasEntry (past : List Moment) (x : UInt32) (n : CodePtr) : Prop :=
  ∃ m ∈ past, m.cpu.store.lookup x = some n

theorem WasEntry.earlier {n : CodePtr} (h : WasEntry past x n) (m : Moment) :
    WasEntry (m :: past) x n := by
  obtain ⟨m', hm', hlookup⟩ := h
  exact ⟨m', List.mem_cons_of_mem m hm', hlookup⟩

namespace Coupling.Chronicle

variable {config : Config} {map : MemoryMap} {allowed : Operation → Prop}
  {U : Upkeep config map allowed} {w : Watch} {m start : Moment} {P : Pair → Prop}

/-- All code was found under its address when it was new. -/
theorem entered (h : (alone U).Chronicle w start m past P) (heven : ∀ x, U.ok x → x &&& 1 = 0)
    {p : Pair} (hp : P p) : WasEntry past p.unit.address p.left.toUInt32 := by
  induction h with
  | start => exact absurd hp not_false
  | @next m m' past P P' _ hadds _ ih =>
    rcases hadds.added p hp with hold | hnew
    · exact (ih hold).earlier m'
    · exact ⟨m', List.mem_cons_self, hnew.found heven⟩

theorem unit_of_entry (h : (alone U).Chronicle w start m past P) (hwas : WasEntry past x n) :
    ∃ p, P p ∧ n = p.left.toUInt32 ∧ p.unit.address >>> 1 = x >>> 1 ∧ x &&& 1 = 0 := by
  obtain ⟨m', hm', hlookup⟩ := hwas
  induction h with
  | start htracks =>
    rw [List.mem_singleton.mp hm'] at hlookup
    exact htracks.sole.1.lookup hlookup
  | next _ hadds htracks ih =>
    rcases List.mem_cons.mp hm' with rfl | hm'
    · exact htracks.sole.1.lookup hlookup
    · obtain ⟨p, hp, hplace⟩ := ih hm'
      exact ⟨p, hadds.keeps p hp, hplace⟩

end Coupling.Chronicle

/-- The code of an instruction at position `n`. Its branches go to positions that were entries of
what they were made for, and so does what comes behind it if it falls through. -/
structure Branches (past : List Moment) (map : MemoryMap) (config : Config) (inst : Instruction)
    (n : Nat) (code : CodeBuffer) : Prop where
  placed : ∀ (i : Nat) item, (inst.body config)[i]? = some item → code.Holds (n + 4 + i) item
  jumps : ∀ (i : Nat) x, (inst.body config)[i]? = some (.goto x) →
    ∃ k : CodePtr, code.JumpsTo (n + 4 + i) k.toNat ∧ WasEntry past (map.canonical x) k
  falls : inst.isTerminal = false → ∃ k : CodePtr,
    code.Arrives (n + 4 + (inst.body config).length) k.toNat ∧
      WasEntry past (map.canonical inst.nextAddress) k

namespace Sole

variable {config : Config} {map : MemoryMap} {view : GuestView} {P : Pair → Prop} {s : CodeStore}
  {piece : Piece} {pieces : List Piece} {a : RegisterAssignment}

theorem jump_leads
    (hmatched : Matched view a a (fun x word => word = map.canonical x >>> 1) none pieces [] s s)
    (htidy : Tidy map (· ∈ pieces.map Piece.toPair) s) (heven : map.KeepsEven)
    (hpiece : piece ∈ pieces) {i : Nat} (hx : x &&& 1 = 0)
    (hitem : (piece.rest (view.config.assign a))[i]? = some (.goto x)) :
    ∃ q ∈ pieces.map Piece.toPair, q.unit.address = map.canonical x ∧
      s.code.JumpsTo (piece.left + 4 + i) q.left := by
  have hleft := Fragment.gotos_links hitem (piece.left + 4)
  have hright := Fragment.gotos_links hitem (piece.right + 4)
  have hmem : ((piece.left + 4 + i, x), (piece.right + 4 + i, x)) ∈
      piece.jumps view.config a a :=
    List.mem_of_getElem? (List.getElem?_zip_eq_some.mpr ⟨hleft, hright⟩)
  rcases hmatched.links piece hpiece _ hmem with ⟨q, hq, hword, hjump, -⟩ | ⟨w, hw, -⟩
  · exact ⟨q, hq, eq_of_word (htidy.home q hq).1 (heven x hx) hword, hjump⟩
  · exact absurd hw List.not_mem_nil

theorem falls_leads
    (hmatched : Matched view a a (fun x word => word = map.canonical x >>> 1) none pieces [] s s)
    (htidy : Tidy map (· ∈ pieces.map Piece.toPair) s) (heven : map.KeepsEven)
    (hpiece : piece ∈ pieces) (hfalls : piece.unit.falls = true) :
    ∃ q ∈ pieces.map Piece.toPair, q.unit.address = map.canonical piece.unit.next ∧
      s.code.Arrives (piece.left + 4 + (piece.unit.body (view.config.assign a)).length) q.left := by
  have hnext := htidy.next _ (List.mem_map_of_mem hpiece)
  cases htailed : piece.tailed with
  | true =>
    have hitem : (piece.rest (view.config.assign a))[
        (piece.unit.body (view.config.assign a)).length]? = some (.goto piece.unit.next) := by
      rw [Piece.rest, htailed]
      exact List.getElem?_concat_length
    obtain ⟨q, hq, haddress, hjump⟩ := jump_leads hmatched htidy heven hpiece hnext hitem
    exact ⟨q, hq, haddress, .inr hjump⟩
  | false =>
    have hsize : piece.size (view.config.assign a) =
        4 + (piece.unit.body (view.config.assign a)).length := by
      rw [Piece.size, Piece.rest, htailed]
      simp
    rcases hmatched.tails piece hpiece (by rw [Piece.falls, hfalls, htailed]; rfl) with
      ⟨q, hq, hword, hleft, -⟩ | ⟨hgap, -⟩
    · rw [hsize, ← Nat.add_assoc] at hleft
      exact ⟨q, hq, eq_of_word (htidy.home q hq).1 (heven _ hnext) hword, .inl hleft.symm⟩
    · exact absurd hgap (by simp)

theorem branches (h : Sole config map view P s) (htidy : Tidy map P s) (heven : map.KeepsEven)
    (hentered : ∀ p, P p → WasEntry past p.unit.address p.left.toUInt32) {p : Pair} (hp : P p)
    {inst : Instruction} (hunit : p.unit = .instruction inst) :
    Branches past map config inst p.left s.code := by
  have hplace (q : Pair) (hq : P q) : q.left.toUInt32.toNat = q.left := h.place hq
  obtain ⟨hfixed, pieces, hmatched, rfl⟩ := h
  obtain ⟨piece, hpiece, rfl⟩ := List.mem_map.mp hp
  have hbody : inst.body config =
      piece.unit.body (view.config.assign config.registerAssignment) := by
    rw [hunit, hfixed.config]
    rfl
  refine ⟨fun i item hitem => ?_, fun i x hitem => ?_, fun hfalls => ?_⟩
  · rw [hbody] at hitem
    exact Matched.body_placed hmatched.left hpiece i item hitem
  · rw [hbody] at hitem
    obtain ⟨hlt, -⟩ := List.getElem?_eq_some_iff.mp hitem
    obtain ⟨q, hq, haddress, hjump⟩ := jump_leads hmatched htidy heven hpiece
      (CodeUnit.goto_even (hmatched.shaped piece hpiece) _ _ hitem)
      ((List.getElem?_append_left hlt).trans hitem)
    refine ⟨q.left.toUInt32, ?_, haddress ▸ hentered q hq⟩
    rw [hplace q hq]
    exact hjump
  · have hfalls' : piece.unit.falls = true := by
      rw [hunit, CodeUnit.falls, hfalls]
      rfl
    obtain ⟨q, hq, haddress, harrives⟩ := falls_leads hmatched htidy heven hpiece hfalls'
    rw [hunit, CodeUnit.next] at haddress
    refine ⟨q.left.toUInt32, ?_, haddress ▸ hentered q hq⟩
    rw [hbody, hplace q hq]
    exact harrives

end Sole

/-- Branches stay right however often code is compiled again. At every moment of an execution of a
processor whose memory ranges start at even addresses, no branch waits to be linked, the jumps at a
position that was ever the entry of an address lead to its current entry, the branches of all code
that was made from an instruction go to positions that were entries of what they were made for, and
all code that is recorded was made from an instruction. -/
theorem branches_reach_current_entries {cpu : Cpu} {config : Config} {memory : MemoryMap}
    (hnew : cpu.IsNew config memory) (hstarts : ∀ chunk ∈ memory.chunks, chunk.start &&& 1 = 0)
    {m : Moment} {past : List Moment}
    (hhistory : Moment.History (fun _ => True) (.idle cpu) m past) (hfits : m.cpu.Fits) :
    m.cpu.store.pending = #[] ∧
      (∀ x n, WasEntry past x n → ∃ n', m.cpu.store.lookup x = some n' ∧
        ReflTransGen m.cpu.store.code.JumpsTo n.toNat n'.toNat) ∧
      (∀ n inst, MadeFrom past n inst →
        Branches past memory config inst n.toNat m.cpu.store.code) ∧
      ∀ n address, (n, address) ∈ m.cpu.store.entries.origins →
        ∃ inst : Instruction, MadeFrom past n inst ∧ inst.address = address := by
  have heven := MemoryMap.keepsEven_of_starts hstarts
  let U := (Steady.tidy heven hnew.sound : Steady config memory).upkeep
  have hinitial : U.Inv cpu.view (fun _ => False) .initial :=
    ⟨fun _ hp => absurd hp not_false, fun _ hp => absurd hp not_false,
      fun _ hp => absurd hp not_false⟩
  obtain ⟨P, hknown⟩ := hnew.chronicle U hinitial (fun _ _ => trivial) hhistory hfits
  obtain ⟨hsole, htidy⟩ : Sole config memory m.cpu.view P m.cpu.store ∧
    Tidy memory P m.cpu.store := hknown.tracks.sole
  refine ⟨?_, fun x n hwas => ?_, fun n inst hmade => ?_, fun n address hrecorded => ?_⟩
  · obtain ⟨-, pieces, hmatched, -⟩ := hsole
    exact Array.toList_eq_nil_iff.mp hmatched.pendingLeft
  · obtain ⟨p, hp, rfl, hword, hx⟩ := hknown.unit_of_entry hwas
    obtain rfl : p.unit.address = x := eq_of_word (htidy.home p hp).1 hx hword
    obtain ⟨q, hq, haddress, -, hpath, hlookup, -⟩ := htidy.newest hsole hp
    have hplace := hsole.place hp
    have hplace' := hsole.place hq
    refine ⟨q.left.toUInt32, haddress ▸ hlookup, ?_⟩
    rw [hplace, hplace']
    exact hpath
  · obtain ⟨p, hp, rfl, hunit⟩ := hknown.made_iff.mp hmade
    rw [hsole.place hp]
    exact hsole.branches htidy heven (fun q hq => hknown.entered (fun _ hx => hx.1) hq) hp hunit
  · obtain ⟨p, inst, hp, rfl, hunit, rfl⟩ := hsole.recorded hrecorded
    exact ⟨inst, hknown.made_iff.mpr ⟨p, hp, rfl, hunit⟩, rfl⟩

/-- The branch of a loop leads to code of its first instruction, and from there to the code that it was
compiled to again. -/
theorem branches_reach_current_entries_renewed :
    ∃ (last : Cpu) (k : CodePtr), (Cpu.renewing .default).RunsTo 26 (.ok (), last) ∧
      last.store.lookup 0 = some 55 ∧ k ≠ 55 ∧ last.store.code.JumpsTo 43 k.toNat ∧
      ReflTransGen last.store.code.JumpsTo k.toNat 55 := by
  obtain ⟨last, hruns, hroom, -, ⟨hlookup, hjump⟩, -⟩ := Cpu.renewing_runsTo
  obtain ⟨r, hbegin, horigin, hinst⟩ := Step.ComesTo.session
    (show ((Cpu.renewing .default).begin 26).ComesTo fun r =>
      (38, 6) ∈ r.cpu.store.entries.origins ∧
        r.cpu.view.instructionAt 6 = .decode .m68000 6 [0x60F8] by decide +kernel)
  have hhistory : Moment.History (fun _ => True) _ (.idle (.renewing .default)) _ :=
    .next .start (.operate _ (.setD 0 0x7201) True.intro)
  obtain ⟨hfirst, hmade⟩ := hhistory.first (by
    simp only [List.forall_mem_cons]
    exact ⟨rfl, rfl, List.forall_mem_nil _⟩) hbegin horigin
  rw [hinst] at hmade
  obtain ⟨past, hpast, hlater⟩ := hfirst.along (hruns.moments_from hbegin _)
  obtain ⟨-, hentries, hbranches, -⟩ := branches_reach_current_entries
    (Cpu.isNew_program (by decide) rfl) (by decide) hpast hroom.fits
  obtain ⟨k, hjumps, hwas⟩ := (hbranches 38 _ (hmade.later hlater)).jumps 1 0 (by decide +kernel)
  obtain ⟨n, hcurrent, hpath⟩ := hentries _ k hwas
  rw [show MemoryMap.canonical _ 0 = 0 by decide +kernel] at hcurrent
  obtain rfl : n = 55 := Option.some.inj (hcurrent.symm.trans hlookup)
  refine ⟨last, k, hruns, hlookup, ?_, hjumps, hpath⟩
  rintro rfl
  exact absurd (hjumps.symm.trans hjump) (by decide)

end Dynarec68k
