import Dynarec68k.Proofs.CodeUpkeep
import Mathlib.Data.List.Induction

namespace Dynarec68k

open Host EntryTable UInt32

namespace EntryTable

/-- A change to the table: the code of an instruction is installed if `fresh`, and put in the place
of other code if not. -/
structure Change where
  fresh : Bool
  address : UInt32
  native : CodePtr
  length : Nat

/-- Instructions begin at even addresses, and end where the addresses do at the latest. Their code is
not so far from other code that a page could take the distance for a mark. -/
@[mk_iff proper_iff]
structure Change.Proper (c : Change) : Prop where
  even : c.address &&& 1 = 0
  inside : c.address.toNat + c.length ≤ 2 ^ 32
  near : c.native.toNat < 2 ^ 30

def change (table : EntryTable) (c : Change) : EntryTable :=
  if c.fresh then (table.install c.address c.native c.length).1
  else table.replace c.address c.native c.length

def after (changes : List Change) : EntryTable :=
  changes.foldl change empty

/-- What was last put in the place of other code at an address, or else what was installed first. -/
def current? (changes : List Change) (x : UInt32) : Option CodePtr :=
  let here := changes.filter (·.address = x)
  ((here.filter (!·.fresh)).getLast?.or here.head?).map Change.native

variable {table : EntryTable} {c : Change} {changes : List Change} {x : UInt32}

theorem after_concat : after (changes ++ [c]) = (after changes).change c := by
  rw [after, List.foldl_append]
  rfl

theorem current?_concat :
    current? (changes ++ [c]) x =
      if c.address = x then
        if c.fresh then (current? changes x).or (some c.native) else some c.native
      else current? changes x := by
  by_cases hx : c.address = x
  · cases hfresh : c.fresh with
    | true => simp [current?, hx, hfresh, List.head?_append, Option.map_or]
    | false => simp [current?, hx, hfresh]
  · simp [current?, hx]

theorem based_after (h : ∀ c ∈ changes, c.Proper) : (after changes).pages.Based (2 ^ 30) := by
  induction changes using List.reverseRecOn with
  | nil => exact Pages.based_empty _
  | append_singleton changes c ih =>
    rw [after_concat]
    exact based_enter (ih fun c hc => h c (by simp [hc])) (h c (by simp)).near _ _ _

/-- A proper change is kept in the pages that proper changes have made. -/
theorem Change.Proper.takes (hc : c.Proper) (h : table.pages.Based (2 ^ 30)) :
    table.pages.Takes c.native :=
  ⟨2 ^ 30, by decide, h, hc.near⟩

theorem lookup_change (hc : c.Proper) (h : table.pages.Based (2 ^ 30)) :
    (table.change c).lookup x =
      if c.address = x then
        if c.fresh then (table.lookup x).or (some c.native) else some c.native
      else table.lookup x := by
  change (table.enter c.fresh c.address c.native c.length).lookup x = _
  rw [lookup_enter_eq (hc.takes h)]
  by_cases hx : c.address = x
  · subst hx
    simp only [hc.even, true_and, if_true]
    cases hfresh : c.fresh with
    | true => cases hlookup : table.lookup c.address <;> simp
    | false => simp
  · rw [if_neg hx, if_neg]
    rintro ⟨heven, hword, -⟩
    exact hx (eq_of_word hc.even heven hword)

theorem lookup_after (h : ∀ c ∈ changes, c.Proper) :
    (after changes).lookup x = current? changes x := by
  induction changes using List.reverseRecOn with
  | nil => exact lookup_empty x
  | append_singleton changes c ih =>
    have hbefore : ∀ c ∈ changes, c.Proper := fun c hc => h c (by simp [hc])
    rw [after_concat, lookup_change (h c (by simp)) (based_after hbefore), current?_concat,
      ih hbefore]

theorem lookup_of_isContinuation (h : table.isContinuation x = true) : table.lookup x = none := by
  rw [isContinuation, decide_eq_true_iff] at h
  rw [lookup, h]
  exact ite_self none

/-- What comes after the first word of an instruction is not the first word of all. -/
theorem zero_notMem_wordsAfter (hc : c.Proper) : 0 ∉ Pages.wordsAfter c.address c.length := by
  intro hmem
  obtain ⟨i, hi, hword⟩ := List.mem_map.mp hmem
  rw [List.mem_range] at hi
  have hinside := hc.inside
  have hsum : (c.address + 2 * (i + 1).toUInt32).toNat = c.address.toNat + 2 * (i + 1) := by
    rw [UInt32.toNat_add, UInt32.toNat_mul, Nat.toUInt32, UInt32.toNat_ofNat', Nat.mul_mod_mod,
      Nat.add_mod_mod]
    exact Nat.mod_eq_of_lt (by change c.address.toNat + 2 * (i + 1) < 2 ^ 32; omega)
  have hhalf := congrArg toNat hword
  rw [UInt32.toNat_shiftRight, hsum] at hhalf
  change (c.address.toNat + 2 * (i + 1)) >>> 1 = 0 at hhalf
  omega

theorem first_word_change (hc : c.Proper) (hbased : table.pages.Based (2 ^ 30))
    (h : table.pages.slotAt 0 ≠ some .continuation) :
    (table.change c).pages.slotAt 0 ≠ some .continuation := by
  change (table.enter c.fresh c.address c.native c.length).pages.slotAt 0 ≠ _
  rw [enter_pages]
  split
  · exact h
  · rw [Pages.slotAt_mark (hc.takes hbased), if_neg (c := _ ∧ _) fun hrest =>
      zero_notMem_wordsAfter hc hrest.1]
    split
    · simp
    · exact h

theorem first_word_after (h : ∀ c ∈ changes, c.Proper) :
    (after changes).pages.slotAt 0 ≠ some .continuation := by
  induction changes using List.reverseRecOn with
  | nil => simp [after, empty, Pages.slotAt]
  | append_singleton changes c ih =>
    have hbefore : ∀ c ∈ changes, c.Proper := fun c hc => h c (by simp [hc])
    rw [after_concat]
    exact first_word_change (h c (by simp)) (based_after hbefore) (ih hbefore)

theorem walkBack_eq_some (hzero : table.pages.slotAt 0 ≠ some .continuation)
    {s : UInt32} {steps : Nat} (hx : x &&& 1 = 0) (h : table.walkBack x steps = some s) :
    (table.lookup s).isSome = true ∧ s ≤ x ∧
      ∀ y, y &&& 1 = 0 → s < y → y ≤ x → table.isContinuation y = true := by
  have hentry {x : UInt32} {n : CodePtr} (hx : x &&& 1 = 0) (h : table.slot? x = some (.entry n)) :
      (table.lookup x).isSome = true ∧ x ≤ x ∧
        ∀ y, y &&& 1 = 0 → x < y → y ≤ x → table.isContinuation y = true := by
    refine ⟨?_, UInt32.le_refl x, fun y _ hlt hle => absurd hlt (UInt32.not_lt.mpr hle)⟩
    rw [lookup_eq_some.mpr ⟨hx, h⟩]
    rfl
  induction steps generalizing x with
  | zero =>
    unfold walkBack at h
    split at h
    · rename_i hslot
      cases h
      exact hentry hx hslot
    · cases h
  | succ steps ih =>
    unfold walkBack at h
    split at h
    · rename_i hslot
      cases h
      exact hentry hx hslot
    · rename_i hslot
      have hpositive : x ≠ 0 := by
        rintro rfl
        exact hzero hslot
      have htwo : 2 ≤ x.toNat := by
        have hne : x.toNat ≠ 0 := fun heq => hpositive (UInt32.toNat_inj.mp heq)
        rw [and_one_eq_zero] at hx
        omega
      have hback : (x - 2).toNat = x.toNat - 2 :=
        UInt32.toNat_sub_of_le x 2 (UInt32.le_iff_toNat_le.mpr htwo)
      have heven : (x - 2) &&& 1 = 0 := by
        rw [and_one_eq_zero] at hx ⊢
        omega
      obtain ⟨hfound, hle, hrest⟩ := ih heven h
      rw [le_iff_toNat_le] at hle
      refine ⟨hfound, le_iff_toNat_le.mpr (by omega), fun y hy hlt hyx => ?_⟩
      by_cases hlast : y = x
      · rw [hlast, isContinuation, hslot]
        rfl
      · refine hrest y hy hlt ?_
        have hne : y.toNat ≠ x.toNat := fun heq => hlast (UInt32.toNat_inj.mp heq)
        rw [and_one_eq_zero] at hx hy
        rw [le_iff_toNat_le] at hyx ⊢
        omega
    · cases h

end EntryTable

/-- The table of entries is a partial map, whatever has been installed and replaced. -/
theorem entries_are_partial_map {changes : List Change}
    (h : ∀ c ∈ changes, c.Proper) :
    let table := after changes
    (∀ x, table.lookup x = current? changes x) ∧
    (∀ x, x &&& 1 ≠ 0 → table.lookup x = none) ∧
    (∀ c : Change, c.Proper → ∀ x, x ≠ c.address →
      (table.change c).lookup x = table.lookup x) ∧
    (∀ x native length, (table.lookup x).isSome = true →
      table.install x native length = (table, false)) ∧
    (∀ x, table.isContinuation x = true → table.lookup x = none) ∧
    ∀ x most start, table.instructionStart x most = some start →
      (table.lookup start).isSome = true ∧ start ≤ x ∧
        ∀ y, y &&& 1 = 0 → start < y → y ≤ x → table.isContinuation y = true := by
  refine ⟨fun x => lookup_after h, fun x hx => if_neg hx, fun c hc x hx => ?_,
    fun x native length hsome => ?_, fun x => lookup_of_isContinuation,
    fun x most start hstart => ?_⟩
  · rw [lookup_change hc (based_after h), if_neg hx.symm]
  · obtain ⟨n, hn⟩ := Option.isSome_iff_exists.mp hsome
    rw [install, hn]
  · have hclear := toNat_clear_lowest x
    have heven := even_clear_lowest x
    obtain ⟨hfound, hle, hrest⟩ :=
      walkBack_eq_some (first_word_after h) heven hstart
    rw [le_iff_toNat_le] at hle
    refine ⟨hfound, le_iff_toNat_le.mpr (by omega), fun y hy hlt hyx => hrest y hy hlt ?_⟩
    rw [and_one_eq_zero] at hy
    rw [le_iff_toNat_le] at hyx ⊢
    omega

/-- Of two instructions that overlap, the first is replaced, and installed again in vain. They are in
two pages, one of which was made for code that is behind what it has in the end. -/
theorem entries_are_partial_map_overlapping :
    let changes : List Change :=
      [⟨true, 0x7FE, 40, 6⟩, ⟨true, 0x800, 20, 4⟩, ⟨false, 0x7FE, 60, 2⟩, ⟨true, 0x7FE, 70, 2⟩]
    (after changes).lookup 0x7FE = some 60 ∧
      (after changes).lookup 0x800 = some 20 ∧
      (after changes).lookup 0x802 = none := by
  intro changes
  have hproper : ∀ c ∈ changes, c.Proper := by
    simp only [Change.proper_iff, changes]
    decide
  have hlookup := (entries_are_partial_map hproper).1
  exact ⟨hlookup 0x7FE, hlookup 0x800, hlookup 0x802⟩

end Dynarec68k
