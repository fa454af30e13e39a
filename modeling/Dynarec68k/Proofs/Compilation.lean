import Dynarec68k.Proofs.Layout

namespace Dynarec68k

open Host Codegen Fragment CodeStore EntryTable Piece List

variable {r s s' : CodeStore} {part : CodeUnit} {config : Config} {kind : EntryKind}
  {entries table table' : EntryTable} {pieces : List Piece} {m n : Nat} {p : Piece}
  {site : Piece → Nat} {a b : RegisterAssignment} {canonical : UInt32 → UInt32}

/-- What is recorded about the origin of code at `native`. -/
def CodeUnit.origins (native : CodePtr) : CodeUnit → List (CodePtr × UInt32)
  | instruction inst => [(native, inst.address)]
  | missing _ => []

/-- One store is another with the code of a unit written behind it. -/
structure Appended (config : Config) (canonical : UInt32 → UInt32) (part : CodeUnit)
    (kind : EntryKind) (s s' : CodeStore) : Prop where
  cursor : s'.code.cursor = none
  size : s'.code.ops.size = s.code.ops.size + (4 + (part.body config).length)
  old : ∀ i < s.code.ops.size, s'.code.ops[i]? = s.code.ops[i]?
  head : s'.code.HeadAt s.code.ops.size kind part.address part.address none
  body : ∀ (i : Nat) item, (part.body config)[i]? = some item →
    s'.code.ops[s.code.ops.size + 4 + i]? =
      some (s.entries.opOf canonical (s.code.ops.size + 4 + i) item)
  pending : s'.pending = s.pending ++
    (s.entries.waits canonical (s.code.ops.size + 4) (part.body config)).toArray
  origins : s'.entries.origins =
    part.origins s.code.ops.size.toUInt32 ++ s.entries.origins

theorem toUInt32_le (hm : m < 2 ^ 32) (hn : n < 2 ^ 32) : m.toUInt32 ≤ n.toUInt32 ↔ m ≤ n := by
  simp only [UInt32.le_iff_toNat_le, Nat.toUInt32, UInt32.toNat_ofNat', Nat.mod_eq_of_lt hm,
    Nat.mod_eq_of_lt hn]

theorem EntryTable.holds_opOf {code : CodeBuffer} {item : Item}
    (h : code.ops[n]? = some (entries.opOf canonical n item)) : code.Holds n item := by
  cases item with
  | op op => exact h
  | call gate => exact h
  | goto x => exact ⟨_, h⟩

theorem Laid.gates_le (h : Laid config site pieces s) : Gate.code.length ≤ s.code.ops.size := by
  have hlast := h.gates 19 (.service .breakpoint) rfl
  obtain ⟨hlt, -⟩ := Array.getElem?_eq_some_iff.mp hlast
  exact hlt

theorem Laid.append (h : Laid config site pieces s)
    (hs : Appended config canonical p.unit kind s s') (hsite : site p = s.code.ops.size)
    (htailed : p.tailed = false) (hroom : s'.code.ops.size < 2 ^ 31)
    (hbased : s'.entries.pages.Based s'.code.ops.size) : Laid config site (p :: pieces) s' := by
  have hrest : p.rest config = p.unit.body config := by
    rw [rest, htailed]
    exact append_nil _
  have hsize : p.size config = 4 + (p.unit.body config).length := by
    rw [size, hrest]
  have hgrown := hs.size
  have hsmall : s.code.ops.size < 2 ^ 32 := Nat.lt_trans h.room (by decide)
  exact {
    cursor := hs.cursor
    room := hroom
    based := hbased
    gates := by
      intro i op hop
      obtain ⟨hi, -⟩ := List.getElem?_eq_some_iff.mp hop
      exact (hs.old i (Nat.lt_of_lt_of_le hi h.gates_le)).trans (h.gates i op hop)
    above := by
      intro q hq
      rcases mem_cons.mp hq with rfl | hq
      · rw [hsite]
        exact h.gates_le
      · exact h.above q hq
    within := by
      intro q hq
      rcases mem_cons.mp hq with rfl | hq
      · rw [hsite, hsize, hs.size]
      · have hwithin := h.within q hq
        omega
    apart := by
      refine .cons (fun q hq => ?_) h.apart
      rw [hsite]
      exact h.within q hq
    placed := by
      intro q hq i item hitem
      rcases mem_cons.mp hq with rfl | hq
      · rw [hrest] at hitem
        rw [hsite]
        exact holds_opOf (hs.body i item hitem)
      · obtain ⟨hi, -⟩ := List.getElem?_eq_some_iff.mp hitem
        have hwithin := h.within q hq
        unfold size at hwithin
        exact (h.placed q hq i item hitem).congr (hs.old _ (by omega))
    origin := by
      intro q hq inst hinst i hi
      have horigins := hs.origins
      rcases mem_cons.mp hq with rfl | hq
      · -- The newest origin is the first that is looked at.
        rw [hinst] at horigins hsize hgrown
        have hstart : s.code.ops.size.toUInt32 ≤ (s.code.ops.size + i).toUInt32 := by
          simp only [CodeUnit.body] at hgrown
          rw [toUInt32_le hsmall (by omega)]
          omega
        rw [hsite, origin?, horigins]
        simp only [CodeUnit.origins, singleton_append, find?_cons, hstart, decide_true,
          Option.map_some]
      · rw [← h.origin q hq inst hinst i hi, origin?, origin?, horigins]
        cases p.unit with
        | missing => rfl
        | instruction =>
          have hwithin := h.within q hq
          simp only [size, rest, hinst, CodeUnit.body, length_append]
            at hwithin
          have hstart : ¬s.code.ops.size.toUInt32 ≤ (site q + i).toUInt32 := by
            rw [toUInt32_le hsmall (by omega)]
            omega
          simp only [CodeUnit.origins, singleton_append, find?_cons, hstart,
            decide_false]
    listed := by
      intro q hq inst hinst
      rw [hs.origins]
      rcases mem_cons.mp hq with rfl | hq
      · rw [hinst, hsite]
        exact mem_append_left _ mem_cons_self
      · exact mem_append_right _ (h.listed q hq inst hinst)
    recorded := by
      intro e he
      rw [hs.origins] at he
      rcases mem_append.mp he with hnew | hold
      · cases hunit : p.unit with
        | missing => exact absurd (hunit ▸ hnew) not_mem_nil
        | instruction inst =>
          rw [hunit] at hnew
          refine ⟨p, mem_cons_self, inst, hunit, ?_⟩
          rw [hsite]
          exact mem_singleton.mp hnew
      · obtain ⟨q, hq, hrecorded⟩ := h.recorded e hold
        exact ⟨q, mem_cons_of_mem _ hq, hrecorded⟩ }

theorem zip_snd_eq {α β : Type} {l r : List (α × β)} (h : l.map Prod.snd = r.map Prod.snd)
    {e : (α × β) × (α × β)} (he : e ∈ l.zip r) : e.1.2 = e.2.2 := by
  induction l generalizing r with
  | nil => exact absurd he (by simp)
  | cons x l ih =>
    cases r with
    | nil => exact absurd he (by simp)
    | cons y r =>
      simp only [map_cons, cons.injEq] at h
      rcases mem_cons.mp he with rfl | he
      · exact h.1
      · exact ih h.2 he

namespace Piece

variable (hshaped : p.unit.Shaped)
include hshaped

theorem rest_targets :
    targets (p.rest (config.assign a)) = targets (p.rest (config.assign b)) := by
  rw [rest, rest, targets_append, targets_append,
    (CodeUnit.body_parallel (u := false) config hshaped).targets_eq]

theorem gotos_snd (m n : Nat) :
    (gotos m (p.rest (config.assign a))).map Prod.snd =
      (gotos n (p.rest (config.assign b))).map Prod.snd := by
  rw [gotos_targets, gotos_targets, rest_targets hshaped]

theorem jumps_target {e : (Nat × UInt32) × (Nat × UInt32)} (he : e ∈ p.jumps config a b) :
    e.1.2 = e.2.2 :=
  zip_snd_eq (gotos_snd hshaped _ _) he

theorem gotos_length (m n : Nat) :
    (gotos m (p.rest (config.assign a))).length =
      (gotos n (p.rest (config.assign b))).length := by
  have hsnd : (gotos m (p.rest (config.assign a))).map Prod.snd =
      (gotos n (p.rest (config.assign b))).map Prod.snd := gotos_snd hshaped m n
  simpa using congrArg length hsnd

theorem jumps_eq :
    p.jumps config a b =
      (gotos (p.left + 4) (p.unit.body (config.assign a))).zip
        (gotos (p.right + 4) (p.unit.body (config.assign b))) ++
      if p.tailed then
        [((p.left + 4 + (p.unit.body (config.assign a)).length, p.unit.next),
          (p.right + 4 + (p.unit.body (config.assign b)).length, p.unit.next))]
      else [] := by
  have hlength : (gotos (p.left + 4) (p.unit.body (config.assign a) ++ [])).length =
      (gotos (p.right + 4) (p.unit.body (config.assign b) ++ [])).length :=
    gotos_length (p := { p with tailed := false }) hshaped _ _
  rw [append_nil, append_nil] at hlength
  rw [jumps, rest, rest, gotos_append, gotos_append, zip_append hlength]
  cases p.tailed <;> rfl

theorem jumps_map_fst :
    (p.jumps config a b).map Prod.fst = gotos (p.left + 4) (p.rest (config.assign a)) :=
  map_fst_zip (gotos_length hshaped _ _).le

theorem jumps_map_snd :
    (p.jumps config a b).map Prod.snd = gotos (p.right + 4) (p.rest (config.assign b)) :=
  map_snd_zip (gotos_length hshaped _ _).ge

/-- Those jumps of a piece whose targets are unknown to a table. -/
def waits (p : Piece) (view : GuestView) (a b : RegisterAssignment) (entries : EntryTable) :
    List Wait :=
  ((p.jumps view.config a b).filter fun e =>
    (entries.lookup (view.canonical e.1.2)).isNone).map fun e =>
      ⟨view.canonical e.1.2, e.1.1, e.2.1⟩

theorem waits_left (view : GuestView) (entries : EntryTable) :
    (p.waits view a b entries).map Wait.leftLink =
      entries.waits view.canonical (p.left + 4) (p.rest (view.config.assign a)) := by
  rw [waits_eq, ← jumps_map_fst (b := b) hshaped, filter_map, waits, map_map,
    map_map]
  rfl

theorem waits_right (view : GuestView) {entries' : EntryTable}
    (hsame : ∀ x, (entries.lookup x).isNone = (entries'.lookup x).isNone) :
    (p.waits view a b entries).map Wait.rightLink =
      entries'.waits view.canonical (p.right + 4) (p.rest (view.config.assign b)) := by
  rw [waits_eq, ← jumps_map_snd (a := a) hshaped, filter_map, waits, map_map,
    map_map]
  have hfilter : (p.jumps view.config a b).filter (fun e =>
      (entries.lookup (view.canonical e.1.2)).isNone) =
      (p.jumps view.config a b).filter ((fun e : Nat × UInt32 =>
        (entries'.lookup (view.canonical e.2)).isNone) ∘ Prod.snd) := by
    refine filter_congr fun e he => ?_
    rw [hsame, jumps_target hshaped he]
    rfl
  rw [hfilter]
  refine map_congr_left fun e he => ?_
  simp only [Function.comp_apply, Wait.rightLink,
    jumps_target hshaped (mem_filter.mp he).1]

end Piece

/-- Every address leads at least to the word it stands for. -/
def GuestView.Leads (view : GuestView) (leads : UInt32 → UInt32 → Prop) : Prop :=
  ∀ x, leads x (view.canonical x >>> 1)

/-- Canonical addresses stand for themselves. -/
def GuestView.Settled (view : GuestView) : Prop :=
  ∀ x, view.canonical (view.canonical x) = view.canonical x

namespace Matched

variable {view : GuestView} {leads : UInt32 → UInt32 → Prop}
  {gap : Option CodeUnit} {waits : List Wait} {t t' : CodeStore}

/-- The unit whose end is open once a unit was appended. -/
def openEnd (part : CodeUnit) : Option CodeUnit :=
  if part.falls then some part else none

theorem link_appended (h : Matched view a b leads gap pieces waits s t) (hleads : view.Leads leads)
    (hs : Appended (view.config.assign a) view.canonical part kind s s')
    (ht : Appended (view.config.assign b) view.canonical part kind t t') (hshaped : part.Shaped)
    (hp : p = ⟨⟨s.code.ops.size, t.code.ops.size, part⟩, false⟩)
    {e : (Nat × UInt32) × (Nat × UInt32)} (he : e ∈ p.jumps view.config a b) :
    LinksAgree leads (pieces.map toPair) (p.waits view a b s.entries) e s'.code
      t'.code := by
  subst hp
  obtain ⟨i, hi, hitem⟩ := jumps_left he
  obtain ⟨j, hj, hitem'⟩ := jumps_right he
  have htarget := jumps_target hshaped he
  simp only [rest, Bool.false_eq_true, if_false, append_nil] at hitem hitem'
  have hleft := hs.body i _ hitem
  have hright := ht.body j _ hitem'
  rcases h.lookup (view.canonical e.1.2) with ⟨hnone, -⟩ | ⟨q, hq, hword, -, hsome, hsome'⟩
  · refine .inr ⟨_, mem_map.mpr ⟨e, mem_filter.mpr ⟨he, ?_⟩, rfl⟩, rfl, rfl⟩
    simp only [CodeStore.lookup] at hnone
    rw [hnone]
    rfl
  · refine .inl ⟨q, hq, hword ▸ hleads e.1.2, ?_, ?_⟩
    · simp only [CodeStore.lookup] at hsome
      simp only [opOf, hsome, ← hi] at hleft
      exact hleft
    · simp only [CodeStore.lookup, htarget] at hsome'
      simp only [opOf, hsome', ← hj] at hright
      exact hright

theorem append (h : Matched view a b leads gap pieces waits s t) (hleads : view.Leads leads)
    (hsettled : view.Settled)
    (hs : Appended (view.config.assign a) view.canonical part kind s s')
    (ht : Appended (view.config.assign b) view.canonical part kind t t')
    (hroom : s'.code.ops.size < 2 ^ 31) (hroom' : t'.code.ops.size < 2 ^ 31)
    (hbased : s'.entries.pages.Based s'.code.ops.size)
    (hbased' : t'.entries.pages.Based t'.code.ops.size) (hshaped : part.Shaped)
    (hgap : ∀ u, gap = some u → leads u.next (part.address >>> 1))
    (hregions : s'.regions = t'.regions) (hendless : s'.endless = t'.endless)
    (hslots : ∀ word, SlotsAgree
      (⟨s.code.ops.size, t.code.ops.size, part⟩ :: pieces.map toPair) word
      (s'.entries.pages.slotAt word) (t'.entries.pages.slotAt word)) :
    Matched view a b leads (openEnd part)
      (⟨⟨s.code.ops.size, t.code.ops.size, part⟩, false⟩ :: pieces)
      (waits ++ Piece.waits ⟨⟨s.code.ops.size, t.code.ops.size, part⟩, false⟩ view a b s.entries)
      s' t' := by
  have hrest (config : Config) :
      (⟨⟨s.code.ops.size, t.code.ops.size, part⟩, false⟩ : Piece).rest config =
        part.body config := append_nil _
  have hsame (x : UInt32) : (s.entries.lookup x).isNone = (t.entries.lookup x).isNone :=
    h.lookup_isNone x
  generalize hp : (⟨⟨s.code.ops.size, t.code.ops.size, part⟩, false⟩ : Piece) = p at *
  have hunit : p.unit = part := hp ▸ rfl
  have hpair : p.toPair = ⟨s.code.ops.size, t.code.ops.size, part⟩ := hp ▸ rfl
  have hleftSite : p.left = s.code.ops.size := hp ▸ rfl
  have hrightSite : p.right = t.code.ops.size := hp ▸ rfl
  have hsp : Appended (view.config.assign a) view.canonical p.unit kind s s' := hunit ▸ hs
  have htp : Appended (view.config.assign b) view.canonical p.unit kind t t' := hunit ▸ ht
  exact {
    left := h.left.append hsp hleftSite (hp ▸ rfl) hroom hbased
    right := h.right.append htp hrightSite (hp ▸ rfl) hroom' hbased'
    shaped := forall_mem_cons.mpr ⟨hunit ▸ hshaped, h.shaped⟩
    regions := hregions
    endless := hendless
    slots := by
      rw [map_cons, hpair]
      exact hslots
    heads := by
      rw [map_cons, hpair]
      refine forall_mem_cons.mpr ⟨?_, fun q hq => ?_⟩
      · rw [hpair]
        exact ⟨kind, part.address, part.address, .inl ⟨hs.head, ht.head⟩⟩
      · have hwithin := h.left.within q hq
        have hwithin' := h.right.within q hq
        unfold size at hwithin hwithin'
        exact (h.heads q hq).congr (fun _ hr => mem_cons_of_mem _ hr)
          (fun i hi => hs.old _ (by omega)) fun i hi => ht.old _ (by omega)
    links := by
      rw [map_cons]
      have hlt (code : CodeBuffer) (i : Nat) (hi : code.ops[i]? ≠ none) : i < code.ops.size :=
        Nat.lt_of_not_le fun hle => hi (Array.getElem?_eq_none hle)
      refine forall_mem_cons.mpr ⟨fun e he => ?_, fun q hq e he => ?_⟩
      · exact (h.link_appended hleads hs ht hshaped hp.symm he).congr
          (fun _ hq => mem_cons_of_mem _ hq) (fun _ hw _ => mem_append_right _ hw)
          (fun _ => rfl) fun _ => rfl
      · exact (h.links q hq e he).congr (fun _ hr => mem_cons_of_mem _ hr)
          (fun _ hw _ => mem_append_left _ hw) (fun hi => hs.old _ (hlt _ _ hi))
          fun hi => ht.old _ (hlt _ _ hi)
    tails := by
      rw [map_cons, hpair]
      refine forall_mem_cons.mpr ⟨fun hfalls => .inr ?_, fun q hq hfalls => .inl ?_⟩
      · have hopen : part.falls = true := by
          rw [falls, hunit, Bool.and_eq_true] at hfalls
          exact hfalls.1
        refine ⟨by rw [openEnd, if_pos hopen, hunit], ?_, ?_⟩
        · rw [hleftSite, size, hrest, hs.size]
        · rw [hrightSite, size, hrest, ht.size]
      · -- An end that was open is now followed by the new piece.
        rcases h.tails q hq hfalls with ⟨m, hm, hlead⟩ | ⟨hopen, hl, hr⟩
        · exact ⟨m, mem_cons_of_mem _ hm, hlead⟩
        · exact ⟨_, mem_cons_self, hgap _ hopen, hl, hr⟩
    pendingLeft := by
      rw [hs.pending, Array.toList_append, h.pendingLeft, map_append,
        waits_left (hunit ▸ hshaped), hrest, hleftSite]
    pendingRight := by
      rw [ht.pending, Array.toList_append, h.pendingRight, map_append,
        waits_right (hunit ▸ hshaped) view hsame, hrest, hrightSite]
    waiting := by
      intro w hw
      rcases mem_append.mp hw with hw | hw
      · obtain ⟨q, hq, hwait⟩ := h.waiting w hw
        exact ⟨q, mem_cons_of_mem _ hq, hwait⟩
      · obtain ⟨e, he, rfl⟩ := mem_map.mp hw
        exact ⟨p, mem_cons_self, e, (mem_filter.mp he).1, rfl, rfl, hleads _⟩
    settled := by
      intro w hw
      rcases mem_append.mp hw with hw | hw
      · exact h.settled w hw
      · obtain ⟨e, -, rfl⟩ := mem_map.mp hw
        exact hsettled _ }

end Matched

theorem CodeStore.emitLink_eq (hcursor : s.code.cursor = none) (canonical : UInt32 → UInt32)
    (x : UInt32) :
    s.emitLink (canonical x) =
      { s with
        code := { s.code with
          ops := s.code.ops.push (s.entries.opOf canonical s.code.ops.size (.goto x)) }
        pending := s.pending ++ (s.entries.waitOf canonical s.code.ops.size (.goto x)).toArray } := by
  have hposition : s.code.position = s.code.ops.size := by
    rw [CodeBuffer.position, hcursor]
    rfl
  have hemit := s.emitItem_eq canonical (.goto x)
  rw [hposition] at hemit
  change emitItem canonical s (.goto x) = _
  rw [hemit]
  simp only [CodeBuffer.emit, hcursor]

theorem Laid.close {p' : Piece} (h : Laid config site (p :: pieces) s)
    (hend : s.code.ops.size = site p + p.size config) {rel : Int32}
    (hcursor : s'.code.cursor = none) (hops : s'.code.ops = s.code.ops.push (.jump rel))
    (hentries : s'.entries = s.entries) (hsite : site p' = site p)
    (hunit : p'.unit = p.unit) (hrest : p'.rest config = p.rest config ++ [.goto p.unit.next])
    (hroom : s'.code.ops.size < 2 ^ 31) : Laid config site (p' :: pieces) s' := by
  have hsize : p'.size config = p.size config + 1 := by
    simp only [size, hrest, length_append, length_singleton]
    omega
  have hold (i : Nat) (hi : i < s.code.ops.size) : s'.code.ops[i]? = s.code.ops[i]? := by
    rw [hops, Array.getElem?_push_lt hi, Array.getElem?_eq_getElem hi]
  have hgrown : s'.code.ops.size = s.code.ops.size + 1 := by
    rw [hops, Array.size_push]
  exact {
    cursor := hcursor
    room := hroom
    based := hentries ▸ h.based.mono (by omega)
    gates := by
      intro i op hop
      have hgate := h.gates i op hop
      exact (hold i (Array.getElem?_eq_some_iff.mp hgate).1).trans hgate
    above := forall_mem_cons.mpr ⟨hsite ▸ h.above p mem_cons_self,
      fun q hq => h.above q (mem_cons_of_mem _ hq)⟩
    within := by
      refine forall_mem_cons.mpr ⟨by omega, fun q hq => ?_⟩
      have hwithin := h.within q (mem_cons_of_mem _ hq)
      omega
    apart := by
      obtain ⟨hhead, htail⟩ := pairwise_cons.mp h.apart
      exact .cons (fun q hq => hsite ▸ hhead q hq) htail
    placed := by
      refine forall_mem_cons.mpr ⟨fun i item hitem => ?_, fun q hq i item hitem => ?_⟩
      · rw [hsite]
        rw [hrest] at hitem
        by_cases hi : i < (p.rest config).length
        · rw [getElem?_append_left hi] at hitem
          refine (h.placed p mem_cons_self i item hitem).congr (hold _ ?_)
          unfold size at hend
          omega
        · -- The item behind the old end is the jump just written.
          obtain ⟨hlt, -⟩ := List.getElem?_eq_some_iff.mp hitem
          rw [length_append, length_singleton] at hlt
          obtain rfl : i = (p.rest config).length := by omega
          rw [getElem?_append_right (Nat.le_refl _), Nat.sub_self, getElem?_cons_zero,
            Option.some.injEq] at hitem
          subst hitem
          have hposition : site p + 4 + (p.rest config).length = s.code.ops.size := by
            unfold size at hend
            omega
          refine ⟨rel, ?_⟩
          rw [hposition, hops, Array.getElem?_push_size]
      · have hmem := mem_cons_of_mem p hq
        obtain ⟨hi, -⟩ := List.getElem?_eq_some_iff.mp hitem
        have hwithin := h.within q hmem
        unfold size at hwithin
        exact (h.placed q hmem i item hitem).congr (hold _ (by omega))
    origin := by
      refine forall_mem_cons.mpr ⟨fun inst hinst i hi => ?_, fun q hq inst hinst i hi => ?_⟩
      · rw [hsite, hentries]
        exact h.origin p mem_cons_self inst (hunit ▸ hinst) i hi
      · rw [hentries]
        exact h.origin q (mem_cons_of_mem _ hq) inst hinst i hi
    listed := by
      rw [hentries]
      refine forall_mem_cons.mpr ⟨fun inst hinst => ?_, fun q hq => ?_⟩
      · rw [hsite]
        exact h.listed p mem_cons_self inst (hunit ▸ hinst)
      · exact h.listed q (mem_cons_of_mem _ hq)
    recorded := by
      intro e he
      rw [hentries] at he
      obtain ⟨q, hq, inst, hinst, heq⟩ := h.recorded e he
      rcases mem_cons.mp hq with rfl | hq
      · exact ⟨p', mem_cons_self, inst, hunit.trans hinst, hsite ▸ heq⟩
      · exact ⟨q, mem_cons_of_mem _ hq, inst, hinst, heq⟩ }

namespace Matched

variable {view : GuestView} {leads : UInt32 → UInt32 → Prop}
 {waits : List Wait} {t : CodeStore}

theorem jumps_closed (config : Config) (hshaped : part.Shaped) :
    jumps ⟨⟨n, m, part⟩, true⟩ config a b =
      jumps ⟨⟨n, m, part⟩, false⟩ config a b ++
        [((n + 4 + (part.body (config.assign a)).length, part.next),
          (m + 4 + (part.body (config.assign b)).length, part.next))] := by
  rw [jumps_eq hshaped, jumps_eq hshaped]
  simp

theorem open_end (h : Matched view a b leads (some part) (p :: pieces) waits s t)
    (hfalls : p.falls = true) :
    s.code.ops.size = p.left + p.size (view.config.assign a) ∧
      t.code.ops.size = p.right + p.size (view.config.assign b) := by
  rcases h.tails p mem_cons_self hfalls with ⟨q, hq, -, hl, -⟩ | ⟨-, hl, hr⟩
  · -- Nothing stands behind the newest piece.
    obtain ⟨q', hq', rfl⟩ := mem_map.mp hq
    have hapart := h.left.apart
    rw [pairwise_cons] at hapart
    rcases mem_cons.mp hq' with rfl | hq'
    · unfold size at hl
      omega
    · have hbelow := hapart.1 q' hq'
      unfold size at hl hbelow
      omega
  · exact ⟨hl, hr⟩

/-- The branch to `x` that waits behind both stores, unless `x` has an entry. -/
def waitBehind (view : GuestView) (x : UInt32) (s t : CodeStore) : List Wait :=
  if (s.entries.lookup (view.canonical x)).isNone then
    [⟨view.canonical x, s.code.ops.size, t.code.ops.size⟩]
  else []

theorem mem_waitBehind {x : UInt32} {w : Wait} (hw : w ∈ waitBehind view x s t) :
    w = ⟨view.canonical x, s.code.ops.size, t.code.ops.size⟩ := by
  unfold waitBehind at hw
  split at hw
  · exact mem_singleton.mp hw
  · exact absurd hw not_mem_nil

theorem getElem?_push_of_lt {ops : Array Host.Op} {i : Nat} (hi : i < ops.size) (op : Host.Op) :
    (ops.push op)[i]? = ops[i]? := by
  rw [Array.getElem?_push_lt hi, Array.getElem?_eq_getElem hi]

section

variable (h : Matched view a b leads (some part) (⟨⟨n, m, part⟩, false⟩ :: pieces) waits s t)
include h

theorem pending_closed (x : UInt32) :
    (waitBehind view x s t).map Wait.leftLink =
        s.entries.waitOf view.canonical s.code.ops.size (.goto x) ∧
      (waitBehind view x s t).map Wait.rightLink =
        t.entries.waitOf view.canonical t.code.ops.size (.goto x) := by
  have hlookup := h.lookup (view.canonical x)
  simp only [CodeStore.lookup] at hlookup
  simp only [waitBehind, waitOf]
  rcases hlookup with ⟨hnone, hnone'⟩ | ⟨q, -, -, -, hsome, hsome'⟩
  · rw [hnone, hnone']
    exact ⟨rfl, rfl⟩
  · rw [hsome, hsome']
    exact ⟨rfl, rfl⟩

theorem link_closed (hleads : view.Leads leads) (x : UInt32) {c d : CodeBuffer}
    (hc : c.ops = s.code.ops.push (s.entries.opOf view.canonical s.code.ops.size (.goto x)))
    (hd : d.ops = t.code.ops.push (t.entries.opOf view.canonical t.code.ops.size (.goto x))) :
    LinksAgree leads ((⟨⟨n, m, part⟩, true⟩ :: pieces).map toPair)
      (waits ++ waitBehind view x s t) ((s.code.ops.size, x), (t.code.ops.size, x)) c d := by
  have hlookup := h.lookup (view.canonical x)
  simp only [CodeStore.lookup] at hlookup
  rcases hlookup with ⟨hnone, -⟩ | ⟨q, hq, hword, -, hsome, hsome'⟩
  · refine .inr ⟨⟨view.canonical x, s.code.ops.size, t.code.ops.size⟩,
      mem_append_right _ ?_, rfl, rfl⟩
    rw [waitBehind, hnone]
    exact mem_singleton.mpr rfl
  · refine .inl ⟨q, hq, hword ▸ hleads _, ?_, ?_⟩
    · simp [CodeBuffer.JumpsTo, opOf, hsome, hc]
    · simp [CodeBuffer.JumpsTo, opOf, hsome', hd]

theorem size_closed (hfalls : part.falls = true) :
    s.code.ops.size = n + 4 + (part.body (view.config.assign a)).length ∧
      t.code.ops.size = m + 4 + (part.body (view.config.assign b)).length := by
  obtain ⟨hend, hend'⟩ := h.open_end (by simpa [falls] using hfalls)
  simp only [size, rest, Bool.false_eq_true, if_false, append_nil] at hend hend'
  exact ⟨by omega, by omega⟩

theorem heads_closed (hfalls : part.falls = true) {c d : CodeBuffer} {op op' : Host.Op}
    (hc : c.ops = s.code.ops.push op) (hd : d.ops = t.code.ops.push op') :
    ∀ q ∈ (⟨⟨n, m, part⟩, true⟩ :: pieces : List Piece),
      HeadsAgree ((⟨⟨n, m, part⟩, true⟩ :: pieces : List Piece).map toPair) q.toPair c d := by
  obtain ⟨hend, hend'⟩ := h.size_closed hfalls
  have hold (i : Nat) (hi : i < s.code.ops.size) : c.ops[i]? = s.code.ops[i]? :=
    hc ▸ getElem?_push_of_lt hi op
  have hold' (i : Nat) (hi : i < t.code.ops.size) : d.ops[i]? = t.code.ops[i]? :=
    hd ▸ getElem?_push_of_lt hi op'
  refine forall_mem_cons.mpr ⟨?_, fun q hq => ?_⟩
  · exact (h.heads _ mem_cons_self).congr (fun _ hr => hr)
      (fun i hi => hold _ (by simp only; omega)) fun i hi => hold' _ (by simp only; omega)
  · have hmem := mem_cons_of_mem (⟨⟨n, m, part⟩, false⟩ : Piece) hq
    have hwithin := h.left.within q hmem
    have hwithin' := h.right.within q hmem
    unfold size at hwithin hwithin'
    exact (h.heads q hmem).congr (fun _ hr => hr) (fun i hi => hold _ (by omega))
      fun i hi => hold' _ (by omega)

theorem links_closed (hleads : view.Leads leads) (hfalls : part.falls = true) {c d : CodeBuffer}
    (hc : c.ops =
      s.code.ops.push (s.entries.opOf view.canonical s.code.ops.size (.goto part.next)))
    (hd : d.ops =
      t.code.ops.push (t.entries.opOf view.canonical t.code.ops.size (.goto part.next))) :
    ∀ q ∈ (⟨⟨n, m, part⟩, true⟩ :: pieces : List Piece), ∀ e ∈ q.jumps view.config a b,
      LinksAgree leads ((⟨⟨n, m, part⟩, true⟩ :: pieces : List Piece).map toPair)
        (waits ++ waitBehind view part.next s t) e c d := by
  have hold (ops : Array Host.Op) (i : Nat) (hi : ops[i]? ≠ none) (op : Host.Op) :
      (ops.push op)[i]? = ops[i]? :=
    getElem?_push_of_lt (Nat.lt_of_not_le fun hle => hi (Array.getElem?_eq_none hle)) op
  have hkept (q : Piece) (hq : q ∈ (⟨⟨n, m, part⟩, false⟩ :: pieces : List Piece))
      (e : (Nat × UInt32) × (Nat × UInt32)) (he : e ∈ q.jumps view.config a b) :
      LinksAgree leads ((⟨⟨n, m, part⟩, true⟩ :: pieces : List Piece).map toPair)
        (waits ++ waitBehind view part.next s t) e c d :=
    (h.links q hq e he).congr (fun _ hr => hr) (fun _ hw _ => mem_append_left _ hw)
      (fun hi => hc ▸ hold _ _ hi _) fun hi => hd ▸ hold _ _ hi _
  refine forall_mem_cons.mpr
    ⟨fun e he => ?_, fun q hq => hkept q (mem_cons_of_mem _ hq)⟩
  rw [jumps_closed view.config (h.shaped _ mem_cons_self)] at he
  rcases mem_append.mp he with he | he
  · exact hkept _ mem_cons_self e he
  · obtain rfl := mem_singleton.mp he
    obtain ⟨hend, hend'⟩ := h.size_closed hfalls
    rw [← hend, ← hend']
    exact h.link_closed hleads part.next hc hd

theorem waiting_closed (hleads : view.Leads leads) (hfalls : part.falls = true) :
    ∀ w ∈ waits ++ waitBehind view part.next s t,
      ∃ q ∈ (⟨⟨n, m, part⟩, true⟩ :: pieces : List Piece), ∃ e ∈ q.jumps view.config a b,
        w.left = e.1.1 ∧ w.right = e.2.1 ∧ leads e.1.2 (w.target >>> 1) := by
  have hshaped : part.Shaped := h.shaped _ mem_cons_self
  intro w hw
  rcases mem_append.mp hw with hw | hw
  · obtain ⟨q, hq, e, he, hwait⟩ := h.waiting w hw
    rcases mem_cons.mp hq with rfl | hq
    · refine ⟨_, mem_cons_self, e, ?_, hwait⟩
      rw [jumps_closed view.config hshaped]
      exact mem_append_left _ he
    · exact ⟨q, mem_cons_of_mem _ hq, e, he, hwait⟩
  · obtain rfl := mem_waitBehind hw
    obtain ⟨hend, hend'⟩ := h.size_closed hfalls
    refine ⟨_, mem_cons_self, ((s.code.ops.size, part.next), (t.code.ops.size, part.next)), ?_,
      rfl, rfl, hleads _⟩
    rw [jumps_closed view.config hshaped, ← hend, ← hend']
    exact mem_append_right _ (mem_singleton.mpr rfl)

end

theorem close (h : Matched view a b leads (some part) (⟨⟨n, m, part⟩, false⟩ :: pieces) waits s t)
    (hleads : view.Leads leads) (hsettled : view.Settled) (hfalls : part.falls = true)
    (hroom : (s.emitLink (view.canonical part.next)).code.ops.size < 2 ^ 31)
    (hroom' : (t.emitLink (view.canonical part.next)).code.ops.size < 2 ^ 31) :
    ∃ waits', Matched view a b leads none (⟨⟨n, m, part⟩, true⟩ :: pieces) waits'
        (s.emitLink (view.canonical part.next)) (t.emitLink (view.canonical part.next)) ∧
      ∀ w ∈ waits', w ∈ waits ∨ w.target = view.canonical part.next := by
  have hshaped : part.Shaped := h.shaped _ mem_cons_self
  rw [emitLink_eq h.left.cursor] at hroom ⊢
  rw [emitLink_eq h.right.cursor] at hroom' ⊢
  obtain ⟨hend, hend'⟩ := h.open_end (by simpa [falls] using hfalls)
  have hwaits : ∀ w ∈ waits ++ waitBehind view part.next s t,
      w ∈ waits ∨ w.target = view.canonical part.next := fun w hw =>
    (mem_append.mp hw).imp_right fun hnew => congrArg Wait.target (mem_waitBehind hnew)
  refine ⟨_, ?_, hwaits⟩
  exact {
    left := h.left.close hend h.left.cursor rfl rfl rfl rfl (by simp [rest]) hroom
    right := h.right.close hend' h.right.cursor rfl rfl rfl rfl (by simp [rest]) hroom'
    shaped := forall_mem_cons.mpr ⟨hshaped, fun q hq => h.shaped q (mem_cons_of_mem _ hq)⟩
    regions := h.regions
    endless := h.endless
    slots := h.slots
    heads := h.heads_closed hfalls rfl rfl
    links := h.links_closed hleads hfalls rfl rfl
    tails := by
      refine forall_mem_cons.mpr ⟨fun hclosed => ?_, fun q hq hopen => ?_⟩
      · simp [falls] at hclosed
      · rcases h.tails q (mem_cons_of_mem _ hq) hopen with hfollow | ⟨-, hl, -⟩
        · exact .inl hfollow
        · -- An older piece does not reach to the end.
          have hbelow := (pairwise_cons.mp h.left.apart).1 q hq
          have hsome : 0 < (⟨⟨n, m, part⟩, false⟩ : Piece).size (view.config.assign a) := by
            unfold size
            omega
          simp only at hend hbelow
          omega
    pendingLeft := by
      rw [Array.toList_append, h.pendingLeft, map_append, (h.pending_closed part.next).1]
    pendingRight := by
      rw [Array.toList_append, h.pendingRight, map_append, (h.pending_closed part.next).2]
    waiting := h.waiting_closed hleads hfalls
    settled := by
      intro w hw
      rcases hwaits w hw with hw | htarget
      · exact h.settled w hw
      · rw [htarget]
        exact hsettled _ }

end Matched

/-- What two tables know about every word is the same. -/
def TablesAgree (pairs : List Pair) (s t : Pages) : Prop :=
  ∀ word, SlotsAgree pairs word (s.slotAt word) (t.slotAt word)

namespace TablesAgree

variable {pairs : List Pair} {s t : Pages}

variable (h : TablesAgree pairs s t)
include h

theorem mono {pairs' : List Pair} (hsub : ∀ p ∈ pairs, p ∈ pairs') : TablesAgree pairs' s t := by
  intro word
  have hword := h word
  generalize s.slotAt word = left at hword
  generalize t.slotAt word = right at hword
  cases hword with
  | none => exact .none
  | continuation => exact .continuation
  | entry hp haddress => exact .entry (hsub _ hp) haddress

theorem eq_none_iff (word : UInt32) : s.slotAt word = none ↔ t.slotAt word = none := by
  have hword := h word
  generalize s.slotAt word = left at hword
  generalize t.slotAt word = right at hword
  cases hword <;> simp

theorem mark {p : Pair} (hp : p ∈ pairs) (hs : s.Takes p.left.toUInt32)
    (ht : t.Takes p.right.toUInt32) (length : Nat) :
    TablesAgree pairs (s.mark p.unit.address p.left.toUInt32 length)
      (t.mark p.unit.address p.right.toUInt32 length) := by
  intro word
  rw [Pages.slotAt_mark hs, Pages.slotAt_mark ht]
  simp only [h.eq_none_iff]
  split
  · rename_i hword
    exact .entry hp hword.symm
  · split
    · exact .continuation
    · exact h word

end TablesAgree

theorem TablesAgree.enter {pairs : List Pair} {s t : EntryTable}
    (h : TablesAgree pairs s.pages t.pages) {p : Pair} (hp : p ∈ pairs)
    (hs : s.pages.Takes p.left.toUInt32) (ht : t.pages.Takes p.right.toUInt32) (fresh : Bool)
    (hsame : (s.lookup p.unit.address).isSome = (t.lookup p.unit.address).isSome) (length : Nat) :
    TablesAgree pairs (s.enter fresh p.unit.address p.left.toUInt32 length).pages
      (t.enter fresh p.unit.address p.right.toUInt32 length).pages := by
  rw [enter_pages, enter_pages, hsame]
  split
  · exact h
  · exact h.mark hp hs ht length

theorem EntryTable.opOf_congr (h : table'.pages = table.pages) (canonical : UInt32 → UInt32)
    (n : Nat) (item : Item) : table'.opOf canonical n item = table.opOf canonical n item := by
  cases item <;> simp only [opOf, lookup_congr h]

namespace Appended

theorem congr (h : Appended config canonical part kind s s') (hcode : r.code = s'.code)
    (hpending : r.pending = s'.pending) (horigins : r.entries.origins = s'.entries.origins) :
    Appended config canonical part kind s r where
  cursor := hcode ▸ h.cursor
  size := hcode ▸ h.size
  old := hcode ▸ h.old
  head := hcode ▸ h.head
  body := hcode ▸ h.body
  pending := hpending.trans h.pending
  origins := horigins.trans h.origins

theorem emit (config : Config) (canonical : UInt32 → UInt32) (part : CodeUnit)
    (hcursor : s.code.cursor = none) (hcode : r.code = s.code) (hpending : r.pending = s.pending)
    (hpages : r.entries.pages = s.entries.pages)
    (horigins : r.entries.origins = part.origins s.code.ops.size.toUInt32 ++ s.entries.origins) :
    Appended config canonical part .boundary s
      (r.emitFragment canonical (boundary part.address ++ part.body config)) := by
  have hposition : r.code.position = s.code.ops.size := by
    rw [CodeBuffer.position, hcode, hcursor]
    rfl
  rw [emitFragment_eq, hposition, CodeBuffer.emitAll_append (hcode ▸ hcursor), hcode]
  have hop (i : Nat) : (s.code.ops ++ (r.entries.render canonical s.code.ops.size
      (boundary part.address ++ part.body config)).toArray)[s.code.ops.size + i]? =
      ((boundary part.address ++ part.body config)[i]?).map
        (s.entries.opOf canonical (s.code.ops.size + i)) := by
    rw [Array.getElem?_append_right (Nat.le_add_right _ _), Nat.add_sub_cancel_left,
      getElem?_toArray, getElem?_render]
    congr 1
    exact funext fun item => opOf_congr hpages canonical _ item
  exact {
    cursor := hcursor
    size := by
      rw [Array.size_append]
      congr 1
      rw [size_toArray, length_render, length_append]
      rfl
    old := fun i hi => Array.getElem?_append_left hi
    head := ⟨hop 0, hop 1, hop 2, hop 3⟩
    body := by
      intro i item hitem
      have hlength : (boundary part.address).length = 4 := rfl
      rw [Nat.add_assoc, hop, getElem?_append_right (by omega), hlength,
        Nat.add_sub_cancel_left, hitem]
      rfl
    pending := by
      simp only [hpending, waits_eq, lookup_congr hpages,
        gotos_append]
      rfl
    origins := horigins }

end Appended

/-- One store is another with a new head at position `n`. -/
structure Patched (n : Nat) (kind : EntryKind) (opened checked : UInt32) (moved : Option Nat)
    (s s' : CodeStore) : Prop where
  code : s.code.SameOutside n (n + 4) s'.code
  head : s'.code.HeadAt n kind opened checked moved
  entries : s'.entries = s.entries
  pending : s'.pending = s.pending
  regions : s'.regions = s.regions
  endless : s'.endless = s.endless

namespace Patched

variable {kind' : EntryKind} {opened checked opened' : UInt32}
  {moved moved' : Option Nat} {code : CodeBuffer} {counters : CompileCounters}

theorem of_overwritten {ops : List Host.Op} (hcode : s.code.Overwritten n ops code)
    (hcursor : code.cursor = s.code.cursor) (hlength : ops.length ≤ 4)
    (hhead : code.HeadAt n kind opened checked moved) :
    Patched n kind opened checked moved s { s with code := code, counters := counters } where
  code := ⟨hcursor, hcode.size, fun i hi => hcode.outside i (by omega)⟩
  head := hhead
  entries := rfl
  pending := rfl
  regions := rfl
  endless := rfl

theorem of_opening (hhead : s.code.HeadAt n kind' opened' checked moved')
    (hcode : s.code.Overwritten n [(CodeBuffer.opening kind n opened).1,
      (CodeBuffer.opening kind n opened).2] code) (hcursor : code.cursor = s.code.cursor) :
    Patched n kind opened checked none s { s with code := code, counters := counters } := by
  refine .of_overwritten hcode hcursor (Nat.le_of_ble_eq_true rfl) ⟨?_, ?_, ?_, ?_⟩
  · exact hcode.inside 0 (by simp)
  · exact hcode.inside 1 (by simp)
  · exact (hcode.outside _ (by simp)).trans hhead.third
  · exact (hcode.outside _ (by simp)).trans hhead.fourth

end Patched

namespace CodeStore

theorem entryKind_eq (hn : n + 1 < 2 ^ 32) {x : UInt32}
    (hsecond : s.code.ops[n + 1]? = some (CodeBuffer.opening kind n x).2) :
    s.entryKind n.toUInt32 = kind := by
  have hsite : s.code.op? (n + 1).toUInt32 = some (CodeBuffer.opening kind n x).2 := by
    rw [CodeBuffer.op?_toUInt32 _ hn, hsecond]
  cases kind <;>
    simp only [entryKind, toUInt32_succ n, hsite, CodeBuffer.opening, Host.Op.branchTarget?,
      branch_relativeTo, if_true]

theorem setBreakpoint_spec {opened checked : UInt32} {moved : Option Nat}
    (hin : n + 4 ≤ s.code.ops.size ∧ s.code.ops.size < 2 ^ 31)
    (hhead : s.code.HeadAt n kind opened checked moved) (x : UInt32) :
    kind ≠ .boundary ∧ s.setBreakpoint x n.toUInt32 = s ∨
      kind = .boundary ∧
        Patched n .breakpoint x checked none s (s.setBreakpoint x n.toUInt32) := by
  have hkind : s.entryKind n.toUInt32 = kind := entryKind_eq (by omega) hhead.second
  by_cases hboundary : kind = .boundary
  · refine .inr ⟨hboundary, ?_⟩
    obtain ⟨code, hwrite, hcursor, hwritten⟩ := s.overwriteWith_eq (n := n) (by omega)
      (load x Role.scratch1 ++ call .breakpoint)
      (by simp [load, mov, call])
      (by simp only [load, mov, call, length_append,
            length_singleton]; omega)
    have hset : s.setBreakpoint x n.toUInt32 = { s with code := code } := by
      simp only [setBreakpoint, hkind, hboundary, hwrite]
    rw [hset]
    exact .of_opening hhead hwritten hcursor
  · refine .inl ⟨hboundary, ?_⟩
    rw [setBreakpoint, hkind]
    cases kind with
    | boundary => exact absurd rfl hboundary
    | redirected => rfl
    | breakpoint => rfl

end CodeStore

namespace Appended

theorem setBreakpoint (h : Appended config canonical part .boundary s s')
    (hroom : s'.code.ops.size < 2 ^ 31) :
    Appended config canonical part .breakpoint s
      (s'.setBreakpoint part.address s.code.ops.size.toUInt32) := by
  have hsize := h.size
  obtain ⟨hne, -⟩ | ⟨-, hset⟩ :=
    setBreakpoint_spec (by omega) h.head part.address
  · exact absurd rfl hne
  · exact {
      cursor := hset.code.cursor.trans h.cursor
      size := hset.code.size.trans h.size
      old := fun i hi => (hset.code.outside i (.inl hi)).trans (h.old i hi)
      head := hset.head
      body := fun i item hitem =>
        (hset.code.outside _ (by omega)).trans (h.body i item hitem)
      pending := hset.pending.trans h.pending
      origins := by rw [hset.entries, h.origins] }

end Appended

namespace CodeStore

/-- Code was added to a store. -/
structure Lengthened (s s' : CodeStore) : Prop where
  size : s.code.ops.size ≤ s'.code.ops.size
  endless : s'.endless = s.endless

theorem Lengthened.refl (s : CodeStore) : Lengthened s s :=
  ⟨Nat.le_refl _, rfl⟩

theorem Lengthened.trans (h : Lengthened r s) (h' : Lengthened s s') : Lengthened r s' :=
  ⟨Nat.le_trans h.size h'.size, h'.endless.trans h.endless⟩

theorem lengthened_emitFragment (s : CodeStore) (canonical : UInt32 → UInt32)
    (fragment : Fragment) : Lengthened s (s.emitFragment canonical fragment) := by
  rw [emitFragment_eq]
  exact ⟨CodeBuffer.size_emitAll _ _, rfl⟩

theorem lengthened_overwriteWith (s : CodeStore) (site : CodePtr) (fragment : Fragment) :
    Lengthened s (s.overwriteWith site fragment) := by
  have hemit := lengthened_emitFragment
    { s with code := { s.code with cursor := some site.toNat } } id fragment
  exact ⟨hemit.size, hemit.endless⟩

theorem lengthened_setBreakpoint (s : CodeStore) (address : UInt32) (native : CodePtr) :
    Lengthened s (s.setBreakpoint address native) := by
  unfold setBreakpoint
  split
  · exact s.lengthened_overwriteWith _ _
  · exact .refl s

/-- Heads hold no jumps, so that writing them changes code alone. -/
theorem setBreakpoint_code (s : CodeStore) (address : UInt32) (native : CodePtr) :
    ∃ code, s.setBreakpoint address native = { s with code := code } := by
  unfold setBreakpoint overwriteWith
  split
  · rw [emitFragment_eq, waits_of_targets _ (by simp [load, mov, call])]
    exact ⟨_, congrArg (mk _ _ · _ _ _) Array.append_empty⟩
  · exact ⟨_, rfl⟩

/-- The kind of entry that new code of an address gets. -/
def newKind (view : GuestView) (address : UInt32) : EntryKind :=
  if view.hasBreakpoint address then .breakpoint else .boundary

/-- The regions marked once an instruction was compiled. -/
def regionsWith (view : GuestView) (inst : Instruction) (regions : Std.HashSet UInt32) :
    Std.HashSet UInt32 :=
  if view.memory.isTracked inst.address then
    (markRegions { initial with regions := regions } view.config inst.address inst.length).regions
  else regions

theorem compileInstruction_eq (s : CodeStore) (view : GuestView) (inst : Instruction)
    (native : CodePtr) (fresh : Bool) :
    s.compileInstruction view inst native fresh =
      let marked := { s.emitInstruction view inst native with
        entries := (s.entries.recordOrigin native inst.address).enter fresh inst.address native
          inst.length
        regions := regionsWith view inst s.regions
        counters := { s.counters with instructions := s.counters.instructions + 1 } }
      if view.hasBreakpoint inst.address then marked.setBreakpoint inst.address native
      else marked := by
  rw [compileInstruction, emitInstruction, emitFragment_eq, regionsWith]
  cases view.memory.isTracked inst.address <;> rfl

end CodeStore

namespace CodeUnit

def newKind (view : GuestView) : CodeUnit → EntryKind
  | instruction inst => CodeStore.newKind view inst.address
  | missing _ => .boundary

/-- Bytes that an entry stands for. -/
def length : CodeUnit → Nat
  | instruction inst => inst.length
  | missing _ => 2

def count : CodeUnit → Nat
  | instruction _ => 1
  | missing _ => 0

def regionsWith (view : GuestView) : CodeUnit → Std.HashSet UInt32 → Std.HashSet UInt32
  | instruction inst => CodeStore.regionsWith view inst
  | missing _ => id

end CodeUnit

namespace CodeStore

def Awaits (s : CodeStore) (x : UInt32) : Prop :=
  ∃ link ∈ s.pending, link.target = x

theorem awaits_emitFragment (s : CodeStore) (canonical : UInt32 → UInt32) (fragment : Fragment)
    (x : UInt32) :
    (s.emitFragment canonical fragment).Awaits x ↔ s.Awaits x ∨
      s.lookup x = none ∧ ∃ y ∈ targets fragment, canonical y = x := by
  rw [emitFragment_eq, Awaits, waits_eq, ← gotos_targets s.code.position]
  simp only [Array.mem_append, mem_toArray, mem_map, mem_filter, or_and_right,
    exists_or]
  refine or_congr_right ⟨?_, ?_⟩
  · rintro ⟨-, ⟨e, ⟨he, hnone⟩, rfl⟩, rfl⟩
    exact ⟨Option.isNone_iff_eq_none.mp hnone, e.2, ⟨e, he, rfl⟩, rfl⟩
  · rintro ⟨hnone, -, ⟨e, he, rfl⟩, rfl⟩
    exact ⟨_, ⟨e, ⟨he, Option.isNone_iff_eq_none.mpr hnone⟩, rfl⟩, rfl⟩

end CodeStore

/-- A unit was entered, marked and counted, and its jumps to addresses without an entry wait. -/
structure Noted (view : GuestView) (part : CodeUnit) (native : CodePtr) (install : Bool)
    (s s' : CodeStore) : Prop where
  entries : s'.entries = enter
    { s.entries with origins := part.origins native ++ s.entries.origins }
    install part.address native part.length
  regions : s'.regions = part.regionsWith view s.regions
  counters : s'.counters =
    { s.counters with instructions := s.counters.instructions + part.count }
  endless : s'.endless = s.endless
  awaits : ∀ x, s'.Awaits x ↔ s.Awaits x ∨
    s.lookup x = none ∧ ∃ y ∈ targets (part.body view.config), view.canonical y = x

/-- Besides, it was written behind the store. -/
structure Compiled (view : GuestView) (part : CodeUnit) (install : Bool) (s s' : CodeStore) : Prop
    extends Noted view part s.code.ops.size.toUInt32 install s s' where
  appended : Appended view.config view.canonical part (part.newKind view) s s'

namespace CodeStore

variable (s : CodeStore) (view : GuestView)

theorem noted_instruction (inst : Instruction) (native : CodePtr) (install : Bool) :
    Noted view (.instruction inst) native install s
      (s.compileInstruction view inst native install) := by
  have htargets : targets (inst.code view.config) =
      targets (inst.body view.config) := targets_append ..
  have hawaits := awaits_emitFragment
    { s with entries := s.entries.recordOrigin native inst.address } view.canonical
    (inst.code view.config)
  rw [htargets] at hawaits
  have hendless : (s.emitInstruction view inst native).endless = s.endless :=
    (lengthened_emitFragment _ view.canonical (inst.code view.config)).endless
  rw [compileInstruction_eq]
  dsimp only
  split
  · obtain ⟨code, hcode⟩ := setBreakpoint_code _ inst.address native
    rw [hcode]
    exact ⟨rfl, rfl, rfl, hendless, hawaits⟩
  · exact ⟨rfl, rfl, rfl, hendless, hawaits⟩

theorem noted_missing (address : UInt32) (native : CodePtr) :
    Noted view (.missing address) native true s (s.compileMissing view address native) := by
  have hawaits := awaits_emitFragment s view.canonical (missing address)
  rw [emitFragment_eq] at hawaits
  rw [compileMissing, emitFragment_eq]
  exact ⟨rfl, rfl, rfl, rfl, hawaits⟩

variable {s view}

theorem here_eq (hcursor : s.code.cursor = none) : s.code.here = s.code.ops.size.toUInt32 := by
  rw [CodeBuffer.here, hcursor]
  rfl

theorem compiled_instruction (inst : Instruction) (install : Bool) (hcursor : s.code.cursor = none)
    (hs : s' = s.compileInstruction view inst s.code.here install)
    (hroom : s'.code.ops.size < 2 ^ 31) : Compiled view (.instruction inst) install s s' := by
  have hnoted := noted_instruction s view inst s.code.here install
  rw [← hs, here_eq hcursor] at hnoted
  refine ⟨hnoted, ?_⟩
  rw [compileInstruction_eq, here_eq hcursor] at hs
  dsimp only at hs
  have hemit := Appended.emit view.config view.canonical (.instruction inst) hcursor
    (r := { s with entries := s.entries.recordOrigin s.code.ops.size.toUInt32 inst.address })
    rfl rfl rfl rfl
  have hmarked (entries : EntryTable) (regions : Std.HashSet UInt32) (counters : CompileCounters)
      (horigins : entries.origins = (s.entries.recordOrigin s.code.ops.size.toUInt32
        inst.address).origins) :
      Appended view.config view.canonical (.instruction inst) .boundary s
        { s.emitInstruction view inst s.code.ops.size.toUInt32 with
          entries := entries, regions := regions, counters := counters } :=
    hemit.congr rfl rfl (horigins.trans hemit.origins.symm)
  rw [CodeUnit.newKind, newKind]
  split at hs
  · rename_i hbreak
    rw [if_pos hbreak, hs]
    refine (hmarked _ _ _ (enter_origins _ _ _ _ _)).setBreakpoint ?_
    exact Nat.lt_of_le_of_lt (lengthened_setBreakpoint _ _ _).size (hs ▸ hroom)
  · rename_i hbreak
    rw [if_neg hbreak, hs]
    exact hmarked _ _ _ (enter_origins _ _ _ _ _)

theorem compiled_missing (address : UInt32) (hcursor : s.code.cursor = none)
    (hs : s' = s.compileMissing view address s.code.here) :
    Compiled view (.missing address) true s s' := by
  have hnoted := noted_missing s view address s.code.here
  rw [← hs, here_eq hcursor] at hnoted
  refine ⟨hnoted, ?_⟩
  have hemit := Appended.emit view.config view.canonical (.missing address) hcursor (r := s) rfl
    rfl rfl rfl
  rw [hs, compileMissing, missing, append_assoc]
  exact hemit.congr rfl rfl (enter_origins _ true _ _ _)

end CodeStore

end Dynarec68k
