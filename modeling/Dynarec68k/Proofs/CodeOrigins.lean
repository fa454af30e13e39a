import Dynarec68k.Proofs.EntryChains

namespace Dynarec68k

open Host Relation

variable {past : List Moment} {n : CodePtr} {inst : Instruction} {address : UInt32}

/-- The moments of an execution so far, the last one first. -/
inductive Moment.History (allowed : Operation → Prop) (start : Moment) :
    Moment → List Moment → Prop where
  | start : History allowed start start [start]
  | next {m m' : Moment} {past : List Moment} (h : History allowed start m past)
      (hnext : Next allowed m m') : History allowed start m' (m' :: past)

/-- The code at a position was made from an instruction: memory held it where an instruction was
recorded for the position, at the first moment at which one was. -/
inductive MadeFrom : List Moment → CodePtr → Instruction → Prop where
  | now {m : Moment} {past : List Moment} {n : CodePtr} {address : UInt32}
      (hrecorded : (n, address) ∈ m.cpu.store.entries.origins)
      (hfirst : ∀ m' ∈ past, (n, address) ∉ m'.cpu.store.entries.origins) :
      MadeFrom (m :: past) n (m.cpu.view.instructionAt address)
  | before {past : List Moment} {n : CodePtr} {inst : Instruction} (m : Moment)
      (h : MadeFrom past n inst) : MadeFrom (m :: past) n inst

theorem MadeFrom.decoded (h : MadeFrom past n inst) :
    ∃ m ∈ past, inst = m.cpu.view.instructionAt inst.address := by
  induction h with
  | @now m past n address hrecorded hfirst =>
    refine ⟨m, List.mem_cons_self, ?_⟩
    rw [GuestView.instructionAt_address]
  | before m _ ih =>
    obtain ⟨m', hm', hinst⟩ := ih
    exact ⟨m', List.mem_cons_of_mem m hm', hinst⟩

theorem MadeFrom.later (h : MadeFrom past n inst) {past' : List Moment} (hlater : past <:+ past') :
    MadeFrom past' n inst := by
  obtain ⟨more, rfl⟩ := hlater
  induction more with
  | nil => exact h
  | cons m more ih => exact .before m ih

theorem Moment.History.along {allowed : Operation → Prop} {start m m' : Moment}
    (h : History allowed start m past) (hpath : ReflTransGen (Next allowed) m m') :
    ∃ past', History allowed start m' past' ∧ past <:+ past' := by
  induction hpath with
  | refl => exact ⟨past, h, List.suffix_refl past⟩
  | @tail m₁ m₂ _ hnext ih =>
    obtain ⟨past', hhistory, hlater⟩ := ih
    exact ⟨m₂ :: past', .next hhistory hnext, hlater.trans (List.suffix_cons m₂ past')⟩

theorem Moment.History.first {allowed : Operation → Prop} {cpu last : Cpu}
    (h : History allowed (.idle cpu) (.idle last) past)
    (hnone : ∀ m ∈ past, m.cpu.store.entries.origins = []) {target : UInt32} {r : Session}
    (hbegin : last.begin target = .next r) (horigin : (n, address) ∈ r.cpu.store.entries.origins) :
    History allowed (.idle cpu) (.running r) (.running r :: past) ∧
      MadeFrom (.running r :: past) n (r.cpu.view.instructionAt address) := by
  have hnext : Moment.Next allowed (.idle last) (last.begin target).moment := .begin last target
  rw [hbegin] at hnext
  refine ⟨.next h hnext, .now (m := .running r) horigin fun m hm hrecorded => ?_⟩
  rw [hnone m hm] at hrecorded
  cases hrecorded

namespace Sole

variable {config : Config} {map : MemoryMap} {view : GuestView} {P : Pair → Prop} {s : CodeStore}

theorem listed (h : Sole config map view P s) {p : Pair} (hp : P p) {inst : Instruction}
    (hunit : p.unit = .instruction inst) :
    (p.left.toUInt32, inst.address) ∈ s.entries.origins := by
  obtain ⟨-, pieces, hmatched, rfl⟩ := h
  obtain ⟨piece, hpiece, rfl⟩ := List.mem_map.mp hp
  exact hmatched.left.listed piece hpiece inst hunit

theorem recorded (h : Sole config map view P s) {n : CodePtr} {address : UInt32}
    (hrecorded : (n, address) ∈ s.entries.origins) :
    ∃ p inst, P p ∧ n = p.left.toUInt32 ∧ p.unit = .instruction inst ∧ inst.address = address := by
  obtain ⟨-, pieces, hmatched, rfl⟩ := h
  obtain ⟨piece, hpiece, inst, hunit, heq⟩ := hmatched.left.recorded _ hrecorded
  obtain ⟨hleft, haddress⟩ := Prod.mk.inj heq
  exact ⟨piece.toPair, inst, List.mem_map_of_mem hpiece, hleft, hunit, haddress.symm⟩

end Sole

theorem Entered.instruction {ok : UInt32 → Prop} {view : GuestView} {s : CodeStore} {p : Pair}
    (h : Entered ok view s p) (hunit : p.unit = .instruction inst) :
    inst = view.instructionAt inst.address := by
  obtain ⟨again, -, hfresh⟩ := h.fresh
  rw [hunit, CodeUnit.address] at hfresh
  rcases hfresh with hat | ⟨-, hat⟩
  · unfold GuestView.unitAt at hat
    split at hat
    · exact CodeUnit.instruction.inj hat
    · cases hat
  · exact CodeUnit.instruction.inj hat

/-- The moments of an execution so far, and the units of code that are known by the last of them. -/
inductive Coupling.Chronicle (C : Coupling) (w : Watch) (start : Moment) :
    Moment → List Moment → (Pair → Prop) → Prop where
  | start (htracks : C.Tracks w (fun _ => False) start) :
      Chronicle C w start start [start] fun _ => False
  | next {m m' : Moment} {past : List Moment} {P P' : Pair → Prop}
      (h : Chronicle C w start m past P) (hadds : C.Adds P P' m'.cpu)
      (htracks : C.Tracks w P' m') : Chronicle C w start m' (m' :: past) P'

namespace Coupling.Chronicle

variable {config : Config} {map : MemoryMap} {allowed : Operation → Prop}
  {U : Upkeep config map allowed} {w : Watch} {m start : Moment} {P : Pair → Prop}

theorem tracks (h : (alone U).Chronicle w start m past P) : (alone U).Tracks w P m := by
  cases h with
  | start htracks => exact htracks
  | next _ _ htracks => exact htracks

theorem last_mem (h : (alone U).Chronicle w start m past P) : m ∈ past := by
  cases h with
  | start => exact List.mem_singleton_self _
  | next => exact List.mem_cons_self

theorem fixed (h : (alone U).Chronicle w start m past P) :
    ∀ m' ∈ past, m'.cpu.view.Fixed config map := by
  induction h with
  | start htracks => exact List.forall_mem_singleton.mpr htracks.sole.1.fixed
  | next _ _ htracks ih => exact List.forall_mem_cons.mpr ⟨htracks.sole.1.fixed, ih⟩

/-- Where an instruction was ever recorded there is a unit. -/
theorem recorded (h : (alone U).Chronicle w start m past P) {m' : Moment} (hm' : m' ∈ past)
    (hrecorded : (n, address) ∈ m'.cpu.store.entries.origins) :
    ∃ p, P p ∧ n = p.left.toUInt32 := by
  have hnow {m' : Moment} {P' : Pair → Prop} (htracks : (alone U).Tracks w P' m')
      (hrecorded : (n, address) ∈ m'.cpu.store.entries.origins) :
      ∃ p, P' p ∧ n = p.left.toUInt32 := by
    obtain ⟨p, -, hp, hleft, -⟩ := htracks.sole.1.recorded hrecorded
    exact ⟨p, hp, hleft⟩
  induction h with
  | start htracks =>
    rw [List.mem_singleton.mp hm'] at hrecorded
    exact hnow htracks hrecorded
  | next _ hadds htracks ih =>
    rcases List.mem_cons.mp hm' with rfl | hm'
    · exact hnow htracks hrecorded
    · obtain ⟨p, hp, hleft⟩ := ih hm'
      exact ⟨p, hadds.keeps p hp, hleft⟩

/-- The instructions that code was made from are its units. -/
theorem made_iff (h : (alone U).Chronicle w start m past P) :
    MadeFrom past n inst ↔ ∃ p, P p ∧ n = p.left.toUInt32 ∧ p.unit = .instruction inst := by
  induction h with
  | start htracks =>
    constructor
    · intro hmade
      cases hmade with
      | now hrecorded =>
        obtain ⟨p, -, hp, -⟩ := htracks.sole.1.recorded hrecorded
        exact absurd hp not_false
      | before _ hmade => cases hmade
    · rintro ⟨p, hp, -⟩
      exact absurd hp not_false
  | @next m m' past P P' hpast hadds htracks ih =>
    have hsole := htracks.sole.1
    constructor
    · intro hnow
      cases hnow with
      | now hrecorded hfirst =>
        obtain ⟨p, inst, hp, rfl, hunit, rfl⟩ := hsole.recorded hrecorded
        rcases hadds.added p hp with hold | hnew
        · exact absurd (hpast.tracks.sole.1.listed hold hunit) (hfirst m hpast.last_mem)
        · refine ⟨p, hp, rfl, ?_⟩
          rw [hunit]
          exact congrArg _ (Entered.instruction hnew hunit)
      | before _ hbefore =>
        obtain ⟨p, hp, hplace⟩ := ih.mp hbefore
        exact ⟨p, hadds.keeps p hp, hplace⟩
    · rintro ⟨p, hp, rfl, hunit⟩
      by_cases hold : P p
      · exact .before m' (ih.mpr ⟨p, hold, rfl, hunit⟩)
      · have hnew := (hadds.added p hp).resolve_left hold
        rw [Entered.instruction hnew hunit]
        refine .now (hsole.listed hp hunit) fun m₁ hm₁ hrecorded => ?_
        obtain ⟨q, hq, hleft⟩ := hpast.recorded hm₁ hrecorded
        exact hold (hsole.left_inj hp (hadds.keeps q hq) hleft ▸ hq)

end Coupling.Chronicle

theorem Cpu.IsNew.chronicle {config : Config} {memory : MemoryMap} {cpu : Cpu}
    (hnew : cpu.IsNew config memory) {allowed allowed' : Operation → Prop}
    (U : Upkeep config memory allowed) (hinitial : U.Inv cpu.view (fun _ => False) .initial)
    (hallowed : ∀ o, allowed' o → allowed o) {m : Moment}
    (hhistory : Moment.History allowed' (.idle cpu) m past) (hfits : m.cpu.Fits) :
    ∃ P, (alone U).Chronicle (.off .zero) (.idle cpu) m past P := by
  induction hhistory with
  | start => exact ⟨_, .start (hnew.tracked U hinitial _)⟩
  | @next m m' past _ hnext ih =>
    have hgrows : Cpu.Grows m.cpu m'.cpu := Moment.Next.grows (.single hnext)
    obtain ⟨P, hpast⟩ := ih (hgrows.fits hfits)
    obtain ⟨P', hadds, htracks⟩ := hpast.tracks.next hallowed hnext hfits
      fun _ _ _ _ => Watch.sees_off _ _ _
    exact ⟨P', .next hpast hadds htracks⟩

namespace MemoryMap

theorem fetchFrom_length_le (chunk : Chunk) (data : ByteArray) (address : UInt32) (count : Nat) :
    (fetchFrom chunk data address count).length ≤ count := by
  induction count generalizing address with
  | zero => exact Nat.le_refl 0
  | succ count ih =>
    unfold fetchFrom
    split
    · exact Nat.zero_le _
    · cases wordOf data (chunk.offset address).toNat with
      | none => exact Nat.zero_le _
      | some word => exact Nat.succ_le_succ (ih _)

theorem fetchFrom_end (chunk : Chunk) (data : ByteArray) (count : Nat) (heven : address &&& 1 = 0) :
    fetchFrom chunk data address count = [] ∨
      address.toNat + 2 * (fetchFrom chunk data address count).length ≤ chunk.stop.toNat := by
  induction count generalizing address with
  | zero => exact .inl rfl
  | succ count ih =>
    unfold fetchFrom
    split
    · exact .inl rfl
    · rename_i hinside
      cases wordOf data (chunk.offset address).toNat with
      | none => exact .inl rfl
      | some word =>
        refine .inr ?_
        rw [Option.map_some, Option.getD_some]
        have hlast : address.toNat + 2 ≤ chunk.stop.toNat := by
          have hlt := UInt32.not_le.mp (not_or.mp hinside).2
          rw [and_one_eq_zero] at heven
          rw [UInt32.lt_iff_toNat_lt, UInt32.toNat_add, UInt32.toNat_one] at hlt
          have hbound := address.toNat_lt
          omega
        have hbound := chunk.stop.toNat_lt
        have hnext : (address + 2).toNat = address.toNat + 2 := by
          rw [UInt32.toNat_add]
          exact Nat.mod_eq_of_lt (by change address.toNat + 2 < 2 ^ 32; omega)
        rcases ih (add_even heven (by decide : (2 : UInt32) &&& 1 = 0)) with hnil | hrest
        · rw [hnil, List.length_singleton]
          omega
        · rw [hnext] at hrest
          rw [List.length_cons]
          omega

end MemoryMap

namespace GuestView

variable (view : GuestView)

theorem instructionAt_length_le (x : UInt32) :
    (view.instructionAt x).length ≤ 2 * Model.maxInstructionWords := by
  have hdecode := Instruction.decode_length_le view.config.model x
    (view.memory.fetchWords x Model.maxInstructionWords)
  have hfetch : (view.memory.fetchWords x Model.maxInstructionWords).length ≤
      Model.maxInstructionWords := by
    rw [MemoryMap.fetchWords_eq]
    cases view.memory.chunkAt? x with
    | none => exact Nat.zero_le _
    | some chunk =>
      cases hbytes : chunk.backing.bytes? with
      | none => simp [hbytes]
      | some data =>
        simp only [Option.map_some, Option.getD_some, hbytes]
        exact MemoryMap.fetchFrom_length_le _ _ _ _
  have hmax : Model.maxInstructionWords = 11 := rfl
  rw [← instructionAt] at hdecode
  omega

theorem instructionAt_end {x : UInt32} (heven : x &&& 1 = 0)
    (hbus : x &&& view.memory.addressMask = x) :
    x.toNat + (view.instructionAt x).length ≤ x.toNat + 2 ∨
      ∃ chunk, view.memory.chunkAt? x = some chunk ∧
        x.toNat + (view.instructionAt x).length ≤ chunk.stop.toNat := by
  have hdecode := Instruction.decode_length_le view.config.model x
    (view.memory.fetchWords x Model.maxInstructionWords)
  rw [← instructionAt, MemoryMap.fetchWords_eq, hbus] at hdecode
  cases hchunk : view.memory.chunkAt? x with
  | none =>
    rw [hchunk] at hdecode
    exact .inl (Nat.add_le_add_left hdecode _)
  | some chunk =>
    rw [hchunk] at hdecode
    cases hbytes : chunk.backing.bytes? with
    | none =>
      simp only [Option.map_some, Option.getD_some, hbytes] at hdecode
      exact .inl (Nat.add_le_add_left hdecode _)
    | some data =>
      simp only [Option.map_some, Option.getD_some, hbytes] at hdecode
      rcases MemoryMap.fetchFrom_end chunk data Model.maxInstructionWords heven with hnil | hend
      · rw [hnil] at hdecode
        exact .inl (Nat.add_le_add_left hdecode _)
      · by_cases hshort : (view.instructionAt x).length ≤ 2
        · exact .inl (by omega)
        · exact .inr ⟨chunk, rfl, by omega⟩

theorem instructionAt_end_le {x : UInt32} (heven : x &&& 1 = 0)
    (hbus : x &&& view.memory.addressMask = x) :
    x.toNat + (view.instructionAt x).length ≤ 2 ^ 32 := by
  have hbound := x.toNat_lt
  rcases view.instructionAt_end heven hbus with hshort | ⟨chunk, -, hstop⟩
  · rw [and_one_eq_zero] at heven
    omega
  · have hbound' := chunk.stop.toNat_lt
    omega

end GuestView

end Dynarec68k
