import Dynarec68k.Proofs.OneProcessor

namespace Dynarec68k

open Host

variable {map : MemoryMap} {x y : UInt32}

/-- What can be done to compiled code. -/
inductive Reworked (view : GuestView) (ok : UInt32 → Prop) (P : Pair → Prop) (s : CodeStore) :
    (Pair → Prop) → CodeStore → Prop where
  | redirected {pairs : List Pair} {s' : CodeStore} (hpairs : P = (· ∈ pairs))
      (h : Redirects pairs s s') : Reworked view ok P s P s'
  | patched {s' : CodeStore} {q : Pair} {x checked : UInt32} {kind : EntryKind} (hq : P q)
      (hlookup : s.lookup x = some q.left.toUInt32)
      (hchecked : checked = x ∨ s'.code.ops[q.left + 2]? = s.code.ops[q.left + 2]?)
      (hkind : kind ≠ .redirected) (h : Patched q.left kind x checked none s s') :
      Reworked view ok P s P s'
  | grown {pairs pairs' : List Pair} {s' : CodeStore} (hpairs : P = (· ∈ pairs))
      (h : Grown view (view.Fresh ok none) none pairs s pairs' s') :
      Reworked view ok P s (· ∈ pairs') s'
  | refreshed {pairs pairs' : List Pair} {s' : CodeStore} {x : UInt32} (hpairs : P = (· ∈ pairs))
      (h : Refreshed view ok x pairs s pairs' s') : Reworked view ok P s (· ∈ pairs') s'

namespace Sole

variable {config : Config} {view : GuestView} {P : Pair → Prop}
  {s : CodeStore} {ok : UInt32 → Prop} {p q : Pair}

variable (h : Sole config map view P s)
include h

theorem lookup {n : CodePtr} (hlookup : s.lookup x = some n) :
    ∃ q, P q ∧ n = q.left.toUInt32 ∧ q.unit.address >>> 1 = x >>> 1 ∧ x &&& 1 = 0 := by
  obtain ⟨-, pieces, hmatched, rfl⟩ := h
  rcases hmatched.lookup x with ⟨hnone, -⟩ | ⟨q, hq, hword, heven, hsome, -⟩
  · exact absurd (hnone.symm.trans hlookup).symm (Option.some_ne_none n)
  · exact ⟨q, hq, Option.some.inj (hlookup.symm.trans hsome), hword, heven⟩

theorem within (hp : P p) :
    p.left + 4 ≤ s.code.ops.size ∧ s.code.ops.size < 2 ^ 31 := by
  obtain ⟨-, pieces, hmatched, rfl⟩ := h
  exact ⟨hmatched.heads_within p hp, hmatched.left.room⟩

theorem place (hp : P p) : p.left.toUInt32.toNat = p.left := by
  have hwithin := h.within hp
  have hlt : p.left < 2 ^ 32 := by omega
  exact UInt32.toNat_ofNat_of_lt' hlt

theorem headed (hp : P p) :
    ∃ kind opened checked moved, s.code.HeadAt p.left kind opened checked moved := by
  obtain ⟨-, pieces, hmatched, rfl⟩ := h
  obtain ⟨piece, hpiece, rfl⟩ := List.mem_map.mp hp
  obtain ⟨kind, opened, checked, moved, -, hhead, -⟩ := hmatched.head_cases hpiece
  exact ⟨kind, opened, checked, moved, hhead⟩

theorem apart (hp : P p) (hq : P q) :
    p = q ∨ p.left + 4 ≤ q.left ∨ q.left + 4 ≤ p.left := by
  obtain ⟨-, pieces, hmatched, rfl⟩ := h
  obtain ⟨piece, hpiece, rfl⟩ := List.mem_map.mp hp
  obtain ⟨other, hother, rfl⟩ := List.mem_map.mp hq
  by_cases hne : piece = other
  · exact .inl (congrArg Piece.toPair hne)
  · have hfirst := hmatched.left.head_apart hpiece hother hne (show 0 < 4 by decide)
    have hlast := hmatched.left.head_apart hpiece hother hne (show 3 < 4 by decide)
    omega

theorem left_inj (hp : P p) (hq : P q)
    (hleft : p.left.toUInt32 = q.left.toUInt32) : p = q := by
  have hwithin := h.within hp
  have hwithin' := h.within hq
  have heq := toUInt32_inj (by omega) (by omega) hleft
  rcases h.apart hp hq with hsame | hapart
  · exact hsame
  · omega

theorem heads_patched (hp : P p) (hq : P q) {kind : EntryKind}
    {opened checked : UInt32} {moved : Option Nat} {r r' : CodeStore}
    (hpatched : Patched p.left kind opened checked moved r r') :
    q = p ∨ ∀ i < 4, r'.code.ops[q.left + i]? = r.code.ops[q.left + i]? := by
  rcases h.apart hq hp with hsame | hapart
  · exact .inl hsame
  · exact .inr fun i hi => hpatched.code.outside _ (by omega)

theorem unchanged : Reworked view ok P s P s := by
  obtain ⟨-, pieces, -, hP⟩ := h
  exact .redirected hP (.refl _ s)

theorem noteWrite (address : UInt32) (bytes : Nat) :
    Reworked view ok P s P (s.noteWrite config address bytes) := by
  obtain ⟨-, pieces, hmatched, hP⟩ := h
  exact .redirected hP (hmatched.noteWrite config address bytes).2

theorem redirectRange (canonical : UInt32 → UInt32)
    (start stop : UInt32) :
    Reworked view ok P s P (s.redirectRange config canonical start stop) := by
  obtain ⟨-, pieces, hmatched, hP⟩ := h
  exact .redirected hP (hmatched.redirectRange config canonical start stop).2

theorem restoreBoundary (hq : P q) (hlookup : s.lookup x = some q.left.toUInt32) :
    Reworked view ok P s P (s.restoreBoundary x q.left.toUInt32) := by
  exact .patched hq hlookup (.inl rfl) EntryKind.noConfusion
    (CodeStore.restoreBoundary_spec (h.within hq) x)

theorem restored (hq : P q) (hlookup : s.lookup x = some q.left.toUInt32) :
    Sole config map view P (s.restoreBoundary x q.left.toUInt32) := by
  rcases Paired.lookup h x with ⟨hnone, -⟩ | ⟨r, hr, hleft, hright⟩
  · exact absurd (hnone.symm.trans hlookup).symm (Option.some_ne_none _)
  · obtain rfl := h.left_inj hq hr (Option.some.inj (hlookup.symm.trans hleft))
    have hsame : q.left.toUInt32 = q.right.toUInt32 := Option.some.inj (hleft.symm.trans hright)
    have hrestored := Paired.restoreBoundary h hq x
    rw [← hsame] at hrestored
    exact hrestored

theorem placeBreakpoint (x : UInt32) :
    Reworked view ok P s P (s.placeBreakpoint x) := by
  unfold CodeStore.placeBreakpoint
  cases hlookup : s.lookup x with
  | none => exact h.unchanged
  | some n =>
    obtain ⟨q, hq, rfl, -, -⟩ := h.lookup hlookup
    obtain ⟨kind, opened, checked, moved, hhead⟩ := h.headed hq
    rcases CodeStore.setBreakpoint_spec (h.within hq) hhead x with ⟨-, heq⟩ | ⟨-, hpatched⟩
    · dsimp only
      rw [heq]
      exact h.unchanged
    · exact .patched hq hlookup (.inr (hpatched.head.third.trans hhead.third.symm))
        EntryKind.noConfusion hpatched

theorem liftBreakpoint (x : UInt32) :
    Reworked view ok P s P (s.liftBreakpoint x) := by
  unfold CodeStore.liftBreakpoint
  cases hlookup : s.lookup x with
  | none => exact h.unchanged
  | some n =>
    obtain ⟨q, hq, rfl, -, -⟩ := h.lookup hlookup
    dsimp only
    split
    · exact h.restoreBoundary hq hlookup
    · exact h.unchanged

end Sole

/-- What is known of compiled code whatever memory holds, and kept by all that is done to it. -/
structure Steady (config : Config) (map : MemoryMap) where
  ok : UInt32 → Prop
  Inv : (Pair → Prop) → CodeStore → Prop
  stays : ∀ {view : GuestView}, view.Fixed config map → view.Stays ok
  even : ∀ {x : UInt32}, x &&& 1 = 0 → ok (map.canonical x)
  opened : ∀ {P s p x checked}, Inv P s → P p →
    s.code.HeadAt p.left .redirected x checked none → ok (map.canonical x)
  keeps : ∀ {view P s P' s'}, Sole config map view P s → Sole config map view P' s' → Inv P s →
    Reworked view ok P s P' s' → Inv P' s'

namespace Steady

variable {config : Config}

def upkeep (k : Steady config map) : Upkeep config map fun _ => True where
  ok := k.ok
  Inv _ := k.Inv
  stays := k.stays
  even := k.even
  opened _ := k.opened
  similar h _ := h
  write _ w h hinv :=
    k.keeps h (Paired.patch h fun hmatched => (hmatched.noteWrite config _ w.bytes).1) hinv
      (h.noteWrite _ w.bytes)
  locate _ _ h hinv h' hgrown := k.keeps h h' hinv (.grown rfl hgrown)
  refresh _ _ _ h hinv h' hrefreshed := k.keeps h h' hinv (.refreshed rfl hrefreshed)
  stale h hinv _ _ _ hq hlookup :=
    k.keeps h (h.restored hq hlookup) hinv (h.restoreBoundary hq hlookup)
  invalidate start stop _ h hinv :=
    k.keeps h (Paired.patch h fun hmatched => (hmatched.redirectRange config _ start stop).1) hinv
      (h.redirectRange _ start stop)
  selectBank _ _ _ _ h hinv :=
    k.keeps h (Paired.patch h fun hmatched => (hmatched.redirectRange config _ _ _).1) hinv
      (h.redirectRange _ _ _)
  insertBreakpoint _ _ _ _ h hinv :=
    k.keeps h (Paired.placeBreakpoint h _) hinv (h.placeBreakpoint _)
  removeBreakpoint _ _ _ h hinv :=
    k.keeps h (Paired.liftBreakpoint h _) hinv (h.liftBreakpoint _)
  changeMemory _ _ _ _ hinv := hinv

end Steady

theorem add_even (hx : x &&& 1 = 0) (hy : y &&& 1 = 0) : (x + y) &&& 1 = 0 := by
  rw [and_one_eq_zero] at hx hy ⊢
  rw [UInt32.toNat_add]
  omega

theorem sub_even (hx : x &&& 1 = 0) (hy : y &&& 1 = 0) : (x - y) &&& 1 = 0 := by
  rw [and_one_eq_zero] at hx hy ⊢
  rw [UInt32.toNat_sub]
  omega

theorem eq_of_word (hx : x &&& 1 = 0) (hy : y &&& 1 = 0) (h : x >>> 1 = y >>> 1) : x = y := by
  rw [and_one_eq_zero] at hx hy
  have hnat : x.toNat / 2 = y.toNat / 2 := by
    have hshift := congrArg UInt32.toNat h
    simpa only [UInt32.toNat_shiftRight, UInt32.toNat_one, Nat.reduceMod, Nat.shiftRight_one]
      using hshift
  exact UInt32.toNat_inj.mp (by omega)

namespace MemoryMap

/-- Even addresses stand for even ones. -/
def KeepsEven (map : MemoryMap) : Prop :=
  ∀ x : UInt32, x &&& 1 = 0 → map.canonical x &&& 1 = 0

/-- Where instructions are compiled: even addresses that stand for themselves. -/
def IsHome (map : MemoryMap) (x : UInt32) : Prop :=
  x &&& 1 = 0 ∧ map.canonical x = x

theorem keepsEven_of_starts (h : ∀ chunk ∈ map.chunks, chunk.start &&& 1 = 0) : map.KeepsEven := by
  intro x hx
  rw [canonical_eq]
  cases hchunk : map.chunkAt? x with
  | none => exact and_one_of_and hx _
  | some chunk =>
    have hstart := h chunk (Array.mem_toList_iff.mp (List.mem_of_find?_eq_some hchunk))
    exact add_even hstart (and_one_of_and (sub_even (and_one_of_and hx _) hstart) _)

theorem KeepsEven.isHome (h : map.KeepsEven) (hsound : map.Sound) (hx : x &&& 1 = 0) :
    map.IsHome (map.canonical x) :=
  ⟨h x hx, hsound.canonical_canonical x⟩

end MemoryMap

namespace GuestView

theorem instructionAt_even (view : GuestView) (x : UInt32) :
    (view.instructionAt x).length % 2 = 0 := by
  unfold instructionAt Instruction.decode Instruction.decode?
  cases (Decode.reader view.config.model).run 0
    (view.memory.fetchWords x Model.maxInstructionWords) with
  | ok result => exact Nat.mul_mod_right 2 result.2
  | error => exact Nat.mod_self 2

theorem nextAddress_even (view : GuestView) (hx : x &&& 1 = 0) :
    (view.instructionAt x).nextAddress &&& 1 = 0 := by
  refine add_even ?_ ?_
  · rw [view.instructionAt_address]
    exact hx
  · have hlength := view.instructionAt_even x
    rw [and_one_eq_zero, Nat.toUInt32, UInt32.toNat_ofNat']
    omega

theorem Fresh.next_even {view : GuestView} {ok : UInt32 → Prop} {again : Option UInt32}
    {part : CodeUnit} (h : view.Fresh ok again part) (heven : part.address &&& 1 = 0) :
    part.next &&& 1 = 0 := by
  have hnext := view.nextAddress_even heven
  rcases h.2 with hunit | ⟨-, hunit⟩
  · rw [hunit, unitAt]
    split
    · exact hnext
    · exact heven
  · rw [hunit]
    exact hnext

end GuestView

namespace GuestView.Fixed

variable {view : GuestView} {config : Config}

theorem mapSound (h : view.Fixed config map) : map.Sound :=
  h.sound.congr ⟨h.shape.bus.symm, h.shape.chunks.symm⟩

theorem stays_canonical (h : view.Fixed config map) : view.Stays fun x => map.canonical x = x where
  falls _ _ := by
    rw [h.canonical]
    exact h.mapSound.canonical_canonical _
  jumps _ _ _ _ _ := by
    rw [h.canonical]
    exact h.mapSound.canonical_canonical _

theorem stays_even (h : view.Fixed config map) (heven : map.KeepsEven) : view.Stays map.IsHome where
  falls x hx := by
    rw [h.canonical]
    exact heven.isHome h.mapSound (view.nextAddress_even hx.1)
  jumps x hx a y hy := by
    rw [h.canonical]
    have hshaped : (CodeUnit.instruction (view.instructionAt x)).Shaped :=
      CodeUnit.decode_shaped _ _ _
    have hparallel := CodeUnit.body_parallel (a := a) (b := a) (u := false) view.config hshaped
    exact heven.isHome h.mapSound (hparallel.targets_even y hy)

end GuestView.Fixed

end Dynarec68k
