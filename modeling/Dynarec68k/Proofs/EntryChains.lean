import Dynarec68k.Proofs.CodeUpkeep

namespace Dynarec68k

open Host Relation

variable {x : UInt32}

/-- Code is found under its address, or leads on to newer code of the same address. -/
structure Tidy (map : MemoryMap) (P : Pair → Prop) (s : CodeStore) : Prop where
  home : ∀ p, P p → map.IsHome p.unit.address
  next : ∀ p, P p → p.unit.next &&& 1 = 0
  heads : ∀ p, P p →
    (s.lookup p.unit.address = some p.left.toUInt32 ∧
      ∃ kind, s.code.HeadAt p.left kind p.unit.address p.unit.address none) ∨
    ∃ q, P q ∧ q.unit.address = p.unit.address ∧ p.left < q.left ∧ s.code.JumpsTo p.left q.left

namespace Tidy

variable {config : Config} {map : MemoryMap} {view : GuestView} {P P' : Pair → Prop}
  {s s' : CodeStore} {p q : Pair} {pairs pairs' : List Pair}

section

variable (hsole : Sole config map view P s)
include hsole

/-- Following the jumps of entries leads to the current entry. -/
theorem newest (h : Tidy map P s) (hp : P p) :
    ∃ q, P q ∧ q.unit.address = p.unit.address ∧ p.left ≤ q.left ∧
      ReflTransGen s.code.JumpsTo p.left q.left ∧
      s.lookup q.unit.address = some q.left.toUInt32 ∧
      ∃ kind, s.code.HeadAt q.left kind q.unit.address q.unit.address none := by
  -- there is only so much code behind an entry
  induction hrest : s.code.ops.size - p.left using Nat.strongRecOn generalizing p with
  | ind rest ih =>
    rcases h.heads p hp with ⟨hlookup, hhead⟩ | ⟨q, hq, haddress, hlt, hjump⟩
    · exact ⟨p, hp, rfl, Nat.le_refl _, .refl, hlookup, hhead⟩
    · have hwithin := hsole.within hq
      obtain ⟨r, hr, haddress', hle, hpath, hfound⟩ := ih _ (by omega) hq rfl
      exact ⟨r, hr, haddress'.trans haddress, by omega, .head hjump hpath, hfound⟩

theorem not_newer (h : Tidy map P s) (hp : P p)
    (hlookup : s.lookup p.unit.address = some p.left.toUInt32) (hq : P q)
    (haddress : q.unit.address = p.unit.address) : q.left ≤ p.left := by
  obtain ⟨r, hr, haddress', hle, -, hfound, -⟩ := h.newest hsole hq
  rw [haddress', haddress, hlookup] at hfound
  rw [hsole.left_inj hp hr (Option.some.inj hfound)]
  exact hle

theorem current (h : Tidy map P s) (hp : P p) (hlookup : s.lookup x = some p.left.toUInt32) :
    x = p.unit.address ∧ ∃ kind, s.code.HeadAt p.left kind p.unit.address p.unit.address none := by
  obtain ⟨q, hq, hleft, hword, heven⟩ := hsole.lookup hlookup
  obtain rfl := hsole.left_inj hp hq hleft
  obtain rfl : x = p.unit.address := eq_of_word heven (h.home p hp).1 hword.symm
  refine ⟨rfl, ?_⟩
  rcases h.heads p hp with ⟨-, hhead⟩ | ⟨q, hq', haddress, hlt, -⟩
  · exact hhead
  · have hle := h.not_newer hsole hp hlookup hq' haddress
    omega

theorem rehead (h : Tidy map P s) (hentries : s'.entries = s.entries)
    (hheads : ∀ p, P p → (∀ i < 4, s'.code.ops[p.left + i]? = s.code.ops[p.left + i]?) ∨
      ∃ x kind checked, s.lookup x = some p.left.toUInt32 ∧
        s'.code.HeadAt p.left kind x checked none ∧
        (checked = x ∨ s'.code.ops[p.left + 2]? = s.code.ops[p.left + 2]?)) : Tidy map P s' where
  home := h.home
  next := h.next
  heads p hp := by
    have hkept (y : UInt32) : s'.lookup y = s.lookup y := by
      rw [CodeStore.lookup, CodeStore.lookup, hentries]
    rcases hheads p hp with hsame | ⟨x, kind, checked, hlookup, hhead, hchecked⟩
    · rcases h.heads p hp with ⟨hlookup, kind, hhead⟩ | ⟨q, hq, haddress, hlt, hjump⟩
      · exact .inl ⟨(hkept _).trans hlookup, kind, hhead.congr hsame⟩
      · exact .inr ⟨q, hq, haddress, hlt, (hsame 0 (by omega)).trans hjump⟩
    · obtain ⟨rfl, kind', hold⟩ := h.current hsole hp hlookup
      refine .inl ⟨(hkept _).trans hlookup, kind, ?_⟩
      rcases hchecked with rfl | hthird
      · exact hhead
      · have hsame := hhead.third.symm.trans (hthird.trans hold.third)
        obtain rfl : checked = p.unit.address := by simpa using hsame
        exact hhead

end

theorem grown (h : Tidy map (· ∈ pairs) s)
    (hgrown : Grown view (view.Fresh map.IsHome none) none pairs s pairs' s') :
    Tidy map (· ∈ pairs') s' where
  home p hp := by
    rcases hgrown.added p hp with hp' | ⟨hfresh, -⟩
    · exact h.home p hp'
    · exact hfresh.1
  next p hp := by
    rcases hgrown.added p hp with hp' | ⟨hfresh, -⟩
    · exact h.next p hp'
    · exact hfresh.next_even hfresh.1.1
  heads p hp := by
    have heven (u : CodeUnit) (hu : view.Fresh map.IsHome none u) : u.address &&& 1 = 0 := hu.1.1
    by_cases hp' : p ∈ pairs
    · have hsame := hgrown.heads p hp'
      rcases h.heads p hp' with ⟨hlookup, kind, hhead⟩ | ⟨q, hq, haddress, hlt, hjump⟩
      · exact .inl ⟨hgrown.kept heven _ _ hlookup nofun, kind, hhead.congr hsame⟩
      · exact .inr ⟨q, hgrown.keeps q hq, haddress, hlt, (hsame 0 (by omega)).trans hjump⟩
    · have hlookup := (hgrown.entered heven p hp).resolve_left hp'
      have hheaded := ((hgrown.added p hp).resolve_left hp').2
      exact .inl ⟨hlookup, _, hheaded⟩

theorem refreshed (h : Tidy map (· ∈ pairs) s) (hsole : Sole config map view (· ∈ pairs) s)
    (hsole' : Sole config map view (· ∈ pairs') s')
    (hrefreshed : Refreshed view map.IsHome x pairs s pairs' s') : Tidy map (· ∈ pairs') s' := by
  obtain ⟨q, r, hq, hleft, hunit, hgrown, hmoved⟩ := hrefreshed
  have heven (u : CodeUnit) (hu : view.Fresh map.IsHome (some (view.canonical x)) u) :
      u.address &&& 1 = 0 := hu.1.1
  have hhome (p : Pair) (hp : p ∈ pairs') : map.IsHome p.unit.address := by
    rcases hgrown.added p hp with hp' | ⟨hfresh, -⟩
    · exact h.home p hp'
    · exact hfresh.1
  have hnext (p : Pair) (hp : p ∈ pairs') : p.unit.next &&& 1 = 0 := by
    rcases hgrown.added p hp with hp' | ⟨hfresh, -⟩
    · exact h.next p hp'
    · exact hfresh.next_even hfresh.1.1
  have haddress : q.unit.address = view.canonical x := by
    rw [hunit]
    exact view.instructionAt_address _
  have hentries : s'.entries = r.entries := by
    rcases hmoved with ⟨-, rfl⟩ | ⟨p, -, -, kind, opened, checked, hpatched⟩
    · rfl
    · exact hpatched.entries
  have hfound (y : UInt32) : s'.lookup y = r.lookup y := by
    rw [CodeStore.lookup, CodeStore.lookup, hentries]
  have hleads (p : Pair) (hp : p ∈ pairs)
      (hlookup : s.lookup (view.canonical x) = some p.left.toUInt32) :
      s'.code.JumpsTo p.left q.left := by
    rcases hmoved with ⟨hnone, -⟩ | ⟨old, hold, hlookup', kind, opened, checked, hpatched⟩
    · exact absurd (hnone.symm.trans hlookup).symm (Option.some_ne_none _)
    · obtain rfl := hsole.left_inj hp hold (Option.some.inj (hlookup.symm.trans hlookup'))
      exact hpatched.head.first
  have hsame (p : Pair) (hp : p ∈ pairs')
      (hother : p ∈ pairs → s.lookup (view.canonical x) ≠ some p.left.toUInt32) :
      ∀ i < 4, s'.code.ops[p.left + i]? = r.code.ops[p.left + i]? := by
    rcases hmoved with ⟨-, rfl⟩ | ⟨old, hold, hlookup, kind, opened, checked, hpatched⟩
    · exact fun _ _ => rfl
    · refine (hsole'.heads_patched (hgrown.keeps old hold) hp hpatched).resolve_left ?_
      rintro rfl
      exact hother hold hlookup
  refine ⟨hhome, hnext, fun p hp => ?_⟩
  by_cases hp' : p ∈ pairs
  · by_cases hlookup : s.lookup (view.canonical x) = some p.left.toUInt32
    · have hwithin := hsole.within hp'
      have hcurrent := (h.current hsole hp' hlookup).1
      exact .inr ⟨q, hq, haddress.trans hcurrent, by omega, hleads p hp' hlookup⟩
    · have hsame' (i : Nat) (hi : i < 4) : s'.code.ops[p.left + i]? = s.code.ops[p.left + i]? :=
        (hsame p hp (fun _ => hlookup) i hi).trans (hgrown.heads p hp' i hi)
      rcases h.heads p hp' with ⟨hfirst, kind, hhead⟩ | ⟨n, hn, haddress', hlt, hjump⟩
      · refine .inl ⟨(hfound _).trans (hgrown.kept heven _ _ hfirst ?_), kind, hhead.congr hsame'⟩
        intro hword
        have hcanonical := hhome q hq
        rw [haddress] at hcanonical
        rw [eq_of_word hcanonical.1 (h.home p hp').1 (Option.some.inj hword)] at hlookup
        exact hlookup hfirst
      · exact .inr ⟨n, hgrown.keeps n hn, haddress', hlt, (hsame' 0 (by omega)).trans hjump⟩
  · have hlookup := (hgrown.entered heven p hp).resolve_left hp'
    have hheaded := ((hgrown.added p hp).resolve_left hp').2
    exact .inl ⟨(hfound _).trans hlookup, _, hheaded.congr (hsame p hp fun hold => absurd hold hp')⟩

theorem keeps (h : Tidy map P s) (hsole : Sole config map view P s)
    (hsole' : Sole config map view P' s') (hreworked : Reworked view map.IsHome P s P' s') :
    Tidy map P' s' := by
  cases hreworked with
  | @redirected pairs _ hpairs hredirects =>
    refine h.rehead hsole hredirects.entries fun p hp => ?_
    rw [hpairs] at hp
    refine (hredirects.heads p hp).imp_right ?_
    rintro ⟨x, checked, hlookup, hhead⟩
    exact ⟨x, _, checked, hlookup, hhead, .inr (hredirects.checks p hp)⟩
  | @patched _ q x checked kind hq hlookup hchecked _ hpatched =>
    refine h.rehead hsole hpatched.entries fun p hp => ?_
    rcases hsole.heads_patched hq hp hpatched with rfl | hsame
    · exact .inr ⟨x, kind, checked, hlookup, hpatched.head, hchecked⟩
    · exact .inl hsame
  | grown hpairs hgrown =>
    subst hpairs
    exact h.grown hgrown
  | refreshed hpairs hrefreshed =>
    subst hpairs
    exact h.refreshed hsole hsole' hrefreshed

end Tidy

theorem Host.CodeBuffer.HeadAt.redirected_unique {code : CodeBuffer} {n : Nat} {kind : EntryKind}
    {y checked checked' : UInt32} (h : code.HeadAt n .redirected x checked none)
    (h' : code.HeadAt n kind y checked' none) : x = y := by
  have hfirst := h.first.symm.trans h'.first
  have hsecond := h.second.symm.trans h'.second
  cases kind with
  | redirected => simpa [opening] using hfirst
  | boundary => simp [opening] at hsecond
  | breakpoint => simp [opening] at hsecond

/-- Code stays tidy whatever is done to it. -/
def Steady.tidy {config : Config} {map : MemoryMap} (heven : map.KeepsEven) (hsound : map.Sound) :
    Steady config map where
  ok := map.IsHome
  Inv := Tidy map
  stays h := h.stays_even heven
  even hx := heven.isHome hsound hx
  opened := by
    intro P s p x checked h hp hhead
    rcases h.heads p hp with ⟨-, kind, hhead'⟩ | ⟨q, -, -, -, hjump⟩
    · obtain rfl := hhead.redirected_unique hhead'
      rw [(h.home p hp).2]
      exact h.home p hp
    · have hfirst := hhead.first.symm.trans hjump
      simp [CodeBuffer.opening] at hfirst
  keeps hsole hsole' h hreworked := h.keeps hsole hsole' hreworked

theorem CodeUnit.goto_even {part : CodeUnit} (h : part.Shaped) (config : Config)
    (a : RegisterAssignment) {i : Nat} (hitem : (part.body (config.assign a))[i]? = some (.goto x)) :
    x &&& 1 = 0 := by
  have hparallel := CodeUnit.body_parallel (a := a) (b := a) (u := false) config h
  refine hparallel.targets_even x (List.mem_filterMap.mpr ⟨_, List.mem_of_getElem? hitem, rfl⟩)

end Dynarec68k
