import Dynarec68k.Compiled.EntryTable
import Mathlib.Algebra.Ring.Nat

namespace Dynarec68k

open Host

variable {native : CodePtr} {limit : Nat}

namespace Page

variable {page : Page} {i j : Fin 1024}

theorem slot?_new (base : CodePtr) (i : Fin 1024) : (new base).slot? i = none := by
  simp [slot?, new]

theorem base_extend (page : Page) (i : Fin 1024) : (page.extend i).base = page.base := by
  unfold extend
  split <;> rfl

/-- An entry that is not too far from the base of a page is not taken for a mark. -/
theorem slot?_enter (hlimit : limit < 2 ^ 31) (hbase : page.base.toNat < limit)
    (hnative : native.toNat < limit) :
    (page.enter i native).slot? j = if j = i then some (.entry native) else page.slot? j := by
  have hsum : page.base + (native - page.base) = native := by
    rw [UInt32.add_comm, UInt32.sub_add_cancel]
  have hfar (x : UInt32) (hx : 2 ^ 31 ≤ x.toNat) (hx' : x.toNat ≤ 2 ^ 31 + 1) :
      native - page.base ≠ x := by
    rintro rfl
    have hnat := congrArg UInt32.toNat hsum
    rw [UInt32.toNat_add] at hnat
    omega
  have hunknown : (native - page.base).toInt32 ≠ unknown := fun h =>
    hfar 0x80000000 (by decide) (by decide) (congrArg Int32.toUInt32 h)
  have hmark : (native - page.base).toInt32 ≠ continuation := fun h =>
    hfar 0x80000001 (by decide) (by decide) (congrArg Int32.toUInt32 h)
  unfold slot? enter
  by_cases hj : j = i
  · subst hj
    simp only [Fin.getElem_fin, Vector.getElem_set_self, if_neg hunknown, if_neg hmark, if_pos]
    rw [UInt32.toUInt32_toInt32, hsum]
  · have hne : i.val ≠ j.val := fun h => hj (Fin.ext h.symm)
    simp only [Fin.getElem_fin, Vector.getElem_set_ne _ _ hne, if_neg hj]

theorem slot?_extend :
    (page.extend i).slot? j =
      if j = i ∧ page.slot? j = none then some .continuation else page.slot? j := by
  have hfree : page.slot? i = none ↔ page.offsets[i] = unknown := by
    unfold slot?
    grind
  unfold extend
  by_cases hnone : page.slot? i = none
  · rw [if_pos (hfree.mp hnone)]
    by_cases hj : j = i
    · subst hj
      rw [if_pos ⟨rfl, hnone⟩]
      have hne : continuation ≠ unknown := by decide
      simp [slot?, hne]
    · have hne : i.val ≠ j.val := fun h => hj (Fin.ext h.symm)
      rw [if_neg fun h => hj h.1]
      simp only [slot?, Fin.getElem_fin, Vector.getElem_set_ne _ _ hne]
  · rw [if_neg fun h => hnone (hfree.mpr h), if_neg]
    rintro ⟨rfl, h⟩
    exact hnone h

end Page

namespace Pages

variable {pages : Pages} {word w : UInt32}

theorem eq_of_index (hpage : w >>> 10 = word >>> 10) (hindex : indexOf w = indexOf word) :
    w = word := by
  have hhigh := congrArg UInt32.toNat hpage
  have hlow := congrArg Fin.val hindex
  rw [UInt32.toNat_shiftRight, UInt32.toNat_shiftRight] at hhigh
  change w.toNat >>> 10 = word.toNat >>> 10 at hhigh
  change w.toNat % 1024 = word.toNat % 1024 at hlow
  exact UInt32.toNat_inj.mp (by omega)

/-- The page of a word, or the one that would be made for it. -/
def pageFor (pages : Pages) (word : UInt32) (native : CodePtr) : Page :=
  (pages[word >>> 10]?).getD (.new native)

theorem slot?_pageFor (hpage : w >>> 10 = word >>> 10) :
    (pages.pageFor word native).slot? (indexOf w) = pages.slotAt w := by
  unfold pageFor slotAt
  rw [hpage]
  cases pages[word >>> 10]? with
  | none => exact Page.slot?_new native _
  | some page => rfl

theorem slotAt_change (change : Page → Page) :
    (pages.change word native change).slotAt w =
      if w >>> 10 = word >>> 10 then (change (pages.pageFor word native)).slot? (indexOf w)
      else pages.slotAt w := by
  unfold Pages.change slotAt
  rw [Std.HashMap.getElem?_alter]
  by_cases hpage : w >>> 10 = word >>> 10
  · rw [if_pos (beq_iff_eq.mpr hpage.symm), if_pos hpage]
    rfl
  · rw [if_neg (by simpa using Ne.symm hpage), if_neg hpage]

theorem slotAt_extend :
    (pages.extend native word).slotAt w =
      if w = word ∧ pages.slotAt w = none then some .continuation else pages.slotAt w := by
  rw [extend, slotAt_change]
  by_cases hpage : w >>> 10 = word >>> 10
  · rw [if_pos hpage, Page.slot?_extend, slot?_pageFor hpage]
    have hiff : indexOf w = indexOf word ↔ w = word := ⟨eq_of_index hpage, fun h => by rw [h]⟩
    simp only [hiff]
  · rw [if_neg hpage, if_neg]
    rintro ⟨rfl, -⟩
    exact hpage rfl

theorem slotAt_extendAll (words : List UInt32) :
    (words.foldl (extend native) pages).slotAt w =
      if w ∈ words ∧ pages.slotAt w = none then some .continuation else pages.slotAt w := by
  induction words generalizing pages with
  | nil => simp
  | cons word rest ih =>
    rw [List.foldl_cons, ih, slotAt_extend]
    by_cases hword : w = word
    · subst hword
      cases hslot : pages.slotAt w <;> simp
    · simp [hword]

/-- All pages were made for code below a limit. -/
def Based (pages : Pages) (limit : Nat) : Prop :=
  ∀ (key : UInt32) (page : Page), pages[key]? = some page → page.base.toNat < limit

theorem based_empty (limit : Nat) : Based ∅ limit := by
  intro key page hpage
  rw [Std.HashMap.getElem?_empty] at hpage
  cases hpage

namespace Based

theorem mono {limit' : Nat} (h : pages.Based limit) (hle : limit ≤ limit') : pages.Based limit' :=
  fun key page hpage => Nat.lt_of_lt_of_le (h key page hpage) hle

variable (h : pages.Based limit) (hnative : native.toNat < limit)
include h hnative

theorem pageFor (word : UInt32) : (pages.pageFor word native).base.toNat < limit := by
  unfold Pages.pageFor
  cases hpage : pages[word >>> 10]? with
  | none => exact hnative
  | some page => exact h _ page hpage

theorem change {change : Page → Page} (hchange : ∀ page, (change page).base = page.base)
    (word : UInt32) : (pages.change word native change).Based limit := by
  intro key page hpage
  unfold Pages.change at hpage
  rw [Std.HashMap.getElem?_alter] at hpage
  split at hpage
  · cases hpage
    rw [hchange]
    exact h.pageFor hnative word
  · exact h key page hpage

theorem extendAll (words : List UInt32) :
    Pages.Based (words.foldl (extend native) pages) limit := by
  induction words generalizing pages with
  | nil => exact h
  | cons word rest ih =>
    rw [List.foldl_cons]
    refine ih ?_
    unfold extend
    exact h.change hnative (fun page => page.base_extend (indexOf word)) word

theorem mark (address : UInt32) (length : Nat) :
    (pages.mark address native length).Based limit := by
  unfold Pages.mark
  exact (h.change hnative (fun page => by rfl) (address >>> 1)).extendAll hnative _

end Based

/-- Pages keep what is entered if it is near enough to where they were made for. -/
def Takes (pages : Pages) (native : CodePtr) : Prop :=
  ∃ limit < 2 ^ 31, pages.Based limit ∧ native.toNat < limit

theorem slotAt_mark (h : pages.Takes native) (address : UInt32) (length : Nat) (w : UInt32) :
    (pages.mark address native length).slotAt w =
      if w = address >>> 1 then some (.entry native)
      else if w ∈ wordsAfter address length ∧ pages.slotAt w = none then some .continuation
      else pages.slotAt w := by
  obtain ⟨limit, hlimit, hbased, hnative⟩ := h
  have henter : (pages.change (address >>> 1) native
      (·.enter (indexOf (address >>> 1)) native)).slotAt w =
        if w = address >>> 1 then some (.entry native) else pages.slotAt w := by
    rw [slotAt_change]
    by_cases hpage : w >>> 10 = address >>> 1 >>> 10
    · rw [if_pos hpage, Page.slot?_enter hlimit (hbased.pageFor hnative _) hnative,
        slot?_pageFor hpage]
      have hiff : indexOf w = indexOf (address >>> 1) ↔ w = address >>> 1 :=
        ⟨eq_of_index hpage, fun h => by rw [h]⟩
      simp only [hiff]
    · rw [if_neg hpage, if_neg]
      rintro rfl
      exact hpage rfl
  rw [mark, slotAt_extendAll, henter]
  by_cases hword : w = address >>> 1
  · simp [hword]
  · simp [hword]

end Pages

namespace EntryTable

variable {table : EntryTable} {address x : UInt32} {length : Nat} {fresh : Bool} {n : CodePtr}

theorem lookup_eq_some :
    table.lookup x = some n ↔ x &&& 1 = 0 ∧ table.pages.slotAt (x >>> 1) = some (.entry n) := by
  simp only [lookup, slot?]
  split
  · rename_i heven
    rw [and_iff_right heven]
    generalize table.pages.slotAt (x >>> 1) = slot
    cases slot with
    | none => simp
    | some slot => cases slot <;> simp
  · rename_i hodd
    simp [hodd]

theorem lookup_congr {table' : EntryTable} (h : table'.pages = table.pages) (x : UInt32) :
    table'.lookup x = table.lookup x := by
  simp only [lookup, slot?, h]

theorem lookup_empty (x : UInt32) : empty.lookup x = none := by
  simp [lookup, slot?, Pages.slotAt, empty]

/-- Entering the code of a unit: an entry that exists stays if `fresh`. -/
def enter (table : EntryTable) (fresh : Bool) (address : UInt32) (native : CodePtr)
    (length : Nat) : EntryTable :=
  if fresh then (table.install address native length).1 else table.replace address native length

theorem enter_pages (table : EntryTable) (fresh : Bool) (address : UInt32) (native : CodePtr)
    (length : Nat) :
    (table.enter fresh address native length).pages =
      if fresh && (table.lookup address).isSome then table.pages
      else table.pages.mark address native length := by
  unfold enter install replace
  cases fresh <;> cases table.lookup address <;> rfl

theorem enter_origins (table : EntryTable) (fresh : Bool) (address : UInt32) (native : CodePtr)
    (length : Nat) : (table.enter fresh address native length).origins = table.origins := by
  unfold enter install replace
  cases fresh <;> cases table.lookup address <;> rfl

theorem based_enter (h : table.pages.Based limit) (hnative : native.toNat < limit) (fresh : Bool)
    (address : UInt32) (length : Nat) :
    (table.enter fresh address native length).pages.Based limit := by
  rw [enter_pages]
  split
  · exact h
  · exact h.mark hnative address length

section

variable (h : table.pages.Takes native)
include h

theorem lookup_enter_eq (fresh : Bool) (address : UInt32) (length : Nat) (x : UInt32) :
    (table.enter fresh address native length).lookup x =
      if x &&& 1 = 0 ∧ address >>> 1 = x >>> 1 ∧
        (fresh && (table.lookup address).isSome) = false then some native
      else table.lookup x := by
  have hpages := table.enter_pages fresh address native length
  by_cases hkept : (fresh && (table.lookup address).isSome) = true
  · rw [if_pos hkept] at hpages
    rw [lookup_congr hpages, if_neg fun h => Bool.false_ne_true (h.2.2.symm.trans hkept)]
  · rw [if_neg hkept] at hpages
    rw [Bool.not_eq_true] at hkept
    simp only [hkept, and_true]
    rw [lookup, slot?, hpages, Pages.slotAt_mark h]
    by_cases heven : x &&& 1 = 0
    · by_cases hword : address >>> 1 = x >>> 1
      · simp [heven, hword]
      · simp only [heven, hword, Ne.symm hword, lookup, slot?, if_true, if_false, and_false]
        cases table.pages.slotAt (x >>> 1) <;> simp
    · simp [heven, lookup]

theorem lookup_enter (hlookup : (table.enter fresh address native length).lookup x = some n) :
    table.lookup x = some n ∨ native = n ∧ address >>> 1 = x >>> 1 := by
  rw [lookup_enter_eq h] at hlookup
  split at hlookup
  · rename_i hword
    exact .inr ⟨Option.some.inj hlookup, hword.2.1⟩
  · exact .inl hlookup

theorem lookup_enter_of_ne (hlookup : table.lookup x = some n) (hne : address >>> 1 ≠ x >>> 1) :
    (table.enter fresh address native length).lookup x = some n := by
  rw [lookup_enter_eq h, if_neg fun h => hne h.2.1, hlookup]

theorem lookup_enter_self (heven : address &&& 1 = 0)
    (hnew : fresh = true → table.lookup address = none) :
    (table.enter fresh address native length).lookup address = some native := by
  rw [lookup_enter_eq h, if_pos]
  refine ⟨heven, rfl, Bool.eq_false_iff.mpr fun hkept => ?_⟩
  obtain ⟨hfresh, hsome⟩ := Bool.and_eq_true_iff.mp hkept
  rw [hnew hfresh] at hsome
  cases hsome

theorem isSome_enter (fresh : Bool) (length : Nat) (hx : x &&& 1 = 0)
    (hfound : (table.lookup x).isSome = true ∨ address >>> 1 = x >>> 1) :
    ((table.enter fresh address native length).lookup x).isSome = true := by
  rw [lookup_enter_eq h]
  split
  · rfl
  · rename_i hother
    rcases hfound with hfound | hword
    · exact hfound
    · -- The entry that stays is that of an even address with the same word.
      rw [and_iff_right hx, and_iff_right hword, Bool.not_eq_false, Bool.and_eq_true] at hother
      obtain ⟨n, hn⟩ := Option.isSome_iff_exists.mp hother.2
      rw [lookup_eq_some, hword] at hn
      exact Option.isSome_iff_exists.mpr ⟨n, lookup_eq_some.mpr ⟨hx, hn.2⟩⟩

end

end EntryTable

end Dynarec68k
