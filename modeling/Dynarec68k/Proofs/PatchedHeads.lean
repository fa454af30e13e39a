import Dynarec68k.Proofs.CompiledBlocks

namespace Dynarec68k

open Host CodeStore Piece

variable {s s' t : CodeStore} {pieces : List Piece} {q : Pair} {a b : RegisterAssignment}
  {address checked opened x : UInt32} {leads : UInt32 → UInt32 → Prop}

namespace CodeStore

variable {n : Nat} {kind : EntryKind}
  {moved : Option Nat} (hin : n + 4 ≤ s.code.ops.size ∧ s.code.ops.size < 2 ^ 31)
include hin

theorem redirect_spec (hhead : s.code.HeadAt n kind opened checked moved) (x : UInt32) :
    kind = .redirected ∧ s.redirect x n.toUInt32 = s ∨
      kind ≠ .redirected ∧ Patched n .redirected x checked none s (s.redirect x n.toUInt32) := by
  have hkind : s.entryKind n.toUInt32 = kind := entryKind_eq (by omega) hhead.second
  by_cases hredirected : kind = .redirected
  · refine .inl ⟨hredirected, ?_⟩
    rw [redirect, hkind, hredirected]
  · refine .inr ⟨hredirected, ?_⟩
    have hemission (c : CodeBuffer) (hc : c.cursor = some n) :
        (c.emit (.mov (.imm x) (.reg Role.scratch1) .long)).emitJump (some Gate.refresh.entry) =
          c.emitAll [(CodeBuffer.opening .redirected n x).1,
            (CodeBuffer.opening .redirected n x).2] := by
      have hposition : (c.emit (.mov (.imm x) (.reg Role.scratch1) .long)).position = n + 1 := by
        rw [CodeBuffer.position_emit, CodeBuffer.position, hc]
        rfl
      simp only [CodeBuffer.emitJump, CodeBuffer.relative, CodeBuffer.here_eq, hposition]
      rfl
    obtain ⟨hcursor, hwritten⟩ := CodeBuffer.overwrite_overwritten s.code (by omega)
      hemission (by simp only [List.length_cons, List.length_nil]; omega)
    have hredirect : s.redirect x n.toUInt32 =
        { s with
          code := s.code.overwrite n.toUInt32 fun code =>
            (code.emit (.mov (.imm x) (.reg Role.scratch1) .long)).emitJump
              (some Gate.refresh.entry)
          counters := { s.counters with redirected := s.counters.redirected + 1 } } := by
      rw [redirect, hkind]
      cases kind with
      | redirected => exact absurd rfl hredirected
      | boundary => rfl
      | breakpoint => rfl
    rw [hredirect]
    exact .of_opening hhead hwritten hcursor

theorem restoreBoundary_spec (x : UInt32) :
    Patched n .boundary x x none s (s.restoreBoundary x n.toUInt32) := by
  have hfour : (Codegen.boundary x).length = 4 := rfl
  obtain ⟨code, hwrite, hcursor, hwritten⟩ := s.overwriteWith_eq (n := n) (by omega)
    (Codegen.boundary x)
    (by simp [Codegen.boundary, Codegen.alu, Codegen.skipIf, Codegen.jumpOverIf, Codegen.load,
      Codegen.mov, Codegen.call])
    (by omega)
  have hlength : (s.entries.render id n (Codegen.boundary x)).length = 4 :=
    EntryTable.length_render _ _ _ _
  rw [restoreBoundary, hwrite]
  refine .of_overwritten hwritten hcursor (by omega) ⟨?_, ?_, ?_, ?_⟩
  · exact hwritten.inside 0 (by omega)
  · exact hwritten.inside 1 (by omega)
  · exact hwritten.inside 2 (by omega)
  · exact hwritten.inside 3 (by omega)

omit hin in
/-- Make an old entry lead to new code. -/
def moveEntry (s : CodeStore) (old native : CodePtr) : CodeStore :=
  { s with code := s.code.overwrite old fun code => code.emitJump (some native) }

theorem moveEntry_spec (hhead : s.code.HeadAt n kind opened checked moved) (m : Nat) :
    Patched n kind opened checked (some m) s (s.moveEntry n.toUInt32 m.toUInt32) := by
  have hemission (c : CodeBuffer) (hc : c.cursor = some n) :
      c.emitJump (some m.toUInt32) = c.emitAll [.jump (relativeTo n.toUInt32 m.toUInt32)] := by
    simp only [CodeBuffer.emitJump, CodeBuffer.relative, CodeBuffer.here_eq, CodeBuffer.position, hc]
    rfl
  obtain ⟨hcursor, hwritten⟩ := CodeBuffer.overwrite_overwritten s.code (by omega)
    hemission (by simp only [List.length_cons, List.length_nil]; omega)
  refine .of_overwritten hwritten hcursor (Nat.le_of_ble_eq_true rfl) ⟨?_, ?_, ?_, ?_⟩
  · exact hwritten.inside 0 (by simp)
  · exact (hwritten.outside _ (by simp)).trans hhead.second
  · exact (hwritten.outside _ (by simp)).trans hhead.third
  · exact (hwritten.outside _ (by simp)).trans hhead.fourth

end CodeStore

/-- The entry at a position leads to the gate that compiles its instruction again. -/
def Host.CodeBuffer.RedirectedAt (code : CodeBuffer) (n : Nat) : Prop :=
  code.ops[n + 1]? = some (.jump (relativeTo (n + 1).toUInt32 Gate.refresh.entry))

theorem toUInt32_inj {m n : Nat} (hm : m < 2 ^ 32) (hn : n < 2 ^ 32)
    (h : m.toUInt32 = n.toUInt32) : m = n := by
  have hnat := congrArg UInt32.toNat h
  simpa only [Nat.toUInt32, UInt32.toNat_ofNat', Nat.mod_eq_of_lt hm, Nat.mod_eq_of_lt hn]
    using hnat

theorem and_one_eq_zero : x &&& 1 = 0 ↔ x.toNat % 2 = 0 := by
  rw [← UInt32.toNat_inj, UInt32.toNat_and]
  change x.toNat &&& 1 = 0 ↔ _
  rw [Nat.and_one_is_mod]

theorem words_zero (address : UInt32) : address + 2 * (0 : Nat).toUInt32 = address :=
  UInt32.add_zero address

theorem words_succ (address : UInt32) (i : Nat) :
    address + 2 * (i + 1).toUInt32 = address + 2 + 2 * i.toUInt32 := by
  rw [← toUInt32_succ]
  grind

/-- What a write can do to a store: entries are redirected, each under its own address. -/
structure Redirects (pairs : List Pair) (s s' : CodeStore) : Prop where
  entries : s'.entries = s.entries
  regions : s'.regions = s.regions
  heads : ∀ p ∈ pairs, (∀ i < 4, s'.code.ops[p.left + i]? = s.code.ops[p.left + i]?) ∨
    ∃ x checked, s.lookup x = some p.left.toUInt32 ∧
      s'.code.HeadAt p.left .redirected x checked none
  checks : ∀ p ∈ pairs, s'.code.ops[p.left + 2]? = s.code.ops[p.left + 2]?

namespace Redirects

variable {pairs : List Pair} {s'' : CodeStore}

theorem refl (pairs : List Pair) (s : CodeStore) : Redirects pairs s s where
  entries := rfl
  regions := rfl
  heads _ _ := .inl fun _ _ => rfl
  checks _ _ := rfl

theorem trans (h : Redirects pairs s s') (h' : Redirects pairs s' s'') :
    Redirects pairs s s'' where
  entries := h'.entries.trans h.entries
  regions := h'.regions.trans h.regions
  heads p hp := by
    rcases h'.heads p hp with hsame | ⟨x, checked, hlookup, hhead⟩
    · refine (h.heads p hp).imp (fun hfirst i hi => (hsame i hi).trans (hfirst i hi)) ?_
      rintro ⟨x, checked, hlookup, hhead⟩
      exact ⟨x, checked, hlookup, hhead.congr hsame⟩
    · rw [lookup, h.entries] at hlookup
      exact .inr ⟨x, checked, hlookup, hhead⟩
  checks p hp := (h'.checks p hp).trans (h.checks p hp)

theorem lookup (h : Redirects pairs s s') (x : UInt32) : s'.lookup x = s.lookup x := by
  rw [CodeStore.lookup, CodeStore.lookup, h.entries]

theorem redirected (h : Redirects pairs s s') {p : Pair} (hp : p ∈ pairs)
    (hkind : s.code.RedirectedAt p.left) : s'.code.RedirectedAt p.left := by
  rcases h.heads p hp with hsame | ⟨y, checked, -, hhead⟩
  · exact (hsame 1 (by omega)).trans hkind
  · exact hhead.second

end Redirects

namespace EntryTable

theorem walkBack_congr {pairs : List Pair} {s t : EntryTable}
    (h : TablesAgree pairs s.pages t.pages) (address : UInt32) (steps : Nat) :
    s.walkBack address steps = t.walkBack address steps := by
  induction steps generalizing address with
  | zero =>
    have hslots := h (address >>> 1)
    simp only [walkBack, slot?]
    generalize s.pages.slotAt (address >>> 1) = left at hslots
    generalize t.pages.slotAt (address >>> 1) = right at hslots
    cases hslots <;> rfl
  | succ steps ih =>
    have hslots := h (address >>> 1)
    simp only [walkBack, slot?, ih]
    generalize s.pages.slotAt (address >>> 1) = left at hslots
    generalize t.pages.slotAt (address >>> 1) = right at hslots
    cases hslots <;> rfl

end EntryTable

namespace Matched

variable {view : GuestView}
  {gap : Option CodeUnit} {waits : List Wait} {t' : CodeStore}
  {p : Piece} {kind : EntryKind}
  (h : Matched view a b leads gap pieces waits s t)
include h

theorem patched (hp : p ∈ pieces)
    (hs : Patched p.left kind opened checked none s s')
    (ht : Patched p.right kind opened checked none t t') :
    Matched view a b leads gap pieces waits s' t' :=
  (h.patchHead hp hs.code ht.code ⟨kind, opened, checked, .inl ⟨hs.head, ht.head⟩⟩).congr _ _
    ⟨rfl, hs.entries, hs.pending, hs.regions, hs.endless⟩
    ⟨rfl, ht.entries, ht.pending, ht.regions, ht.endless⟩

theorem patchedMoved (hp : p ∈ pieces) (hq : q ∈ pieces.map toPair)
    (hs : Patched p.left kind opened checked (some q.left) s s')
    (ht : Patched p.right kind opened checked (some q.right) t t') :
    Matched view a b leads gap pieces waits s' t' :=
  (h.patchHead hp hs.code ht.code ⟨kind, opened, checked, .inr ⟨q, hq, hs.head, ht.head⟩⟩).congr
    _ _ ⟨rfl, hs.entries, hs.pending, hs.regions, hs.endless⟩
    ⟨rfl, ht.entries, ht.pending, ht.regions, ht.endless⟩

theorem head_cases (hp : p ∈ pieces) :
    ∃ kind opened checked moved moved', s.code.HeadAt p.left kind opened checked moved ∧
      t.code.HeadAt p.right kind opened checked moved' := by
  obtain ⟨kind, opened, checked, ⟨hs, ht⟩ | ⟨q, -, hs, ht⟩⟩ := h.heads p hp
  · exact ⟨kind, opened, checked, _, _, hs, ht⟩
  · exact ⟨kind, opened, checked, _, _, hs, ht⟩

theorem head_within (hp : p ∈ pieces) :
    (p.left + 4 ≤ s.code.ops.size ∧ s.code.ops.size < 2 ^ 31) ∧
      p.right + 4 ≤ t.code.ops.size ∧ t.code.ops.size < 2 ^ 31 := by
  have hleft := h.left.within p hp
  have hright := h.right.within p hp
  unfold size at hleft hright
  exact ⟨⟨by omega, h.left.room⟩, by omega, h.right.room⟩

theorem position_lt (hq : q ∈ pieces.map toPair) : q.left < 2 ^ 32 := by
  have hwithin := h.heads_within q hq
  have hroom := h.left.room
  omega

theorem heads_patched (hp : p ∈ pieces) {moved : Option Nat}
    (hs : Patched p.left kind opened checked moved s s') (hq : q ∈ pieces.map toPair) :
    q = p.toPair ∨ ∀ i < 4, s'.code.ops[q.left + i]? = s.code.ops[q.left + i]? := by
  obtain ⟨r, hr, rfl⟩ := List.mem_map.mp hq
  by_cases hrp : r = p
  · exact .inl (congrArg toPair hrp)
  · exact .inr fun i hi => hs.code.outside _ (h.left.head_apart hr hp hrp hi)

theorem redirect (hq : q ∈ pieces.map toPair) (hlookup : s.lookup x = some q.left.toUInt32) :
    Matched view a b leads gap pieces waits (s.redirect x q.left.toUInt32)
        (t.redirect x q.right.toUInt32) ∧
      Redirects (pieces.map toPair) s (s.redirect x q.left.toUInt32) ∧
      (s.redirect x q.left.toUInt32).code.RedirectedAt q.left := by
  obtain ⟨p, hp, rfl⟩ := List.mem_map.mp hq
  obtain ⟨kind, opened, checked, moved, moved', hs, ht⟩ := h.head_cases hp
  obtain ⟨hin, hin'⟩ := h.head_within hp
  rcases redirect_spec hin hs x with ⟨hkind, hleft⟩ | ⟨hkind, hleft⟩
  · rcases redirect_spec hin' ht x with ⟨-, hright⟩ | ⟨hne, -⟩
    · rw [hleft, hright]
      rw [hkind] at hs
      exact ⟨h, .refl _ _, hs.second⟩
    · exact absurd hkind hne
  · rcases redirect_spec hin' ht x with ⟨heq, -⟩ | ⟨-, hright⟩
    · exact absurd heq hkind
    · refine ⟨h.patched hp hleft hright,
        ⟨hleft.entries, hleft.regions, fun r hr => ?_, fun r hr => ?_⟩, hleft.head.second⟩
      · rcases h.heads_patched hp hleft hr with rfl | hsame
        · exact .inr ⟨x, checked, hlookup, hleft.head⟩
        · exact .inl hsame
      · rcases h.heads_patched hp hleft hr with rfl | hsame
        · exact hleft.head.third.trans hs.third.symm
        · exact hsame 2 (by omega)

theorem redirectAt (x : UInt32) :
    Matched view a b leads gap pieces waits (s.redirectAt x) (t.redirectAt x) ∧
      Redirects (pieces.map toPair) s (s.redirectAt x) ∧
      ∀ r ∈ pieces.map toPair, s.lookup x = some r.left.toUInt32 →
        (s.redirectAt x).code.RedirectedAt r.left := by
  simp only [CodeStore.redirectAt]
  rcases h.lookup x with ⟨hs, ht⟩ | ⟨q, hq, -, -, hs, ht⟩
  · rw [hs, ht]
    exact ⟨h, .refl _ _, fun r _ hr => absurd hr.symm (Option.some_ne_none _)⟩
  · obtain ⟨hmatched, hredirects, hkind⟩ := h.redirect hq hs
    rw [hs, ht]
    refine ⟨hmatched, hredirects, fun r hr hlookup => ?_⟩
    have hsame : q.left = r.left :=
      toUInt32_inj (h.position_lt hq) (h.position_lt hr) (Option.some.inj hlookup)
    exact hsame ▸ hkind

theorem goOn :
    Matched view a b leads gap pieces waits { s with endless := true }
      { t with endless := true } :=
  { h with
    left := h.left.congr rfl rfl
    right := h.right.congr rfl rfl
    endless := rfl }

theorem redirectEntries (address stop : UInt32) (heven : address.toNat % 2 = 0) :
    Matched view a b leads gap pieces waits (s.redirectEntries address stop)
        (t.redirectEntries address stop) ∧
      Redirects (pieces.map toPair) s (s.redirectEntries address stop) ∧
      ∀ x, ∀ q ∈ pieces.map toPair, s.lookup x = some q.left.toUInt32 →
        address.toNat ≤ x.toNat → x.toNat < stop.toNat →
          (s.redirectEntries address stop).code.RedirectedAt q.left := by
  induction hrest : stop.toNat - address.toNat using Nat.strongRecOn generalizing s t address with
  | ind rest ih =>
    rw [redirectEntries, redirectEntries]
    by_cases hstop : address < stop
    · have hlt := UInt32.lt_iff_toNat_lt.mp hstop
      obtain ⟨hmatched, hredirects, hword⟩ := h.redirectAt address
      rw [if_pos hstop, if_pos hstop]
      by_cases hnext : address < address + 2
      · have hsum : (address + 2).toNat = address.toNat + 2 := by
          rw [UInt32.lt_iff_toNat_lt, UInt32.toNat_add] at hnext
          rw [UInt32.toNat_add]
          change address.toNat < (address.toNat + 2) % 2 ^ 32 at hnext
          change (address.toNat + 2) % 2 ^ 32 = _
          omega
        obtain ⟨hlast, hredirects', hwindow⟩ :=
          ih _ (by omega) hmatched (address + 2) (by omega) rfl
        rw [if_pos hnext, if_pos hnext]
        refine ⟨hlast, hredirects.trans hredirects', fun x q hq hlookup hlow hhigh => ?_⟩
        by_cases hsame : x = address
        · exact hredirects'.redirected hq (hword q hq (hsame ▸ hlookup))
        · have hx := and_one_eq_zero.mp (EntryTable.lookup_eq_some.mp hlookup).1
          have hne : x.toNat ≠ address.toNat := fun heq => hsame (UInt32.toNat_inj.mp heq)
          exact hwindow x q hq ((hredirects.lookup x).trans hlookup) (by omega) hhigh
      · rw [if_neg hnext, if_neg hnext]
        refine ⟨hmatched.goOn, ⟨hredirects.entries, hredirects.regions, hredirects.heads,
          hredirects.checks⟩, fun x q hq hlookup hlow hhigh => ?_⟩
        -- Only the last even address of all is left.
        have hsame : x = address := by
          have hx := and_one_eq_zero.mp (EntryTable.lookup_eq_some.mp hlookup).1
          have hbound := x.toNat_lt
          rw [UInt32.lt_iff_toNat_lt, UInt32.toNat_add] at hnext
          change ¬address.toNat < (address.toNat + 2) % 2 ^ 32 at hnext
          exact UInt32.toNat_inj.mp (by omega)
        exact hword q hq (hsame ▸ hlookup)
    · rw [if_neg hstop, if_neg hstop]
      rw [UInt32.lt_iff_toNat_lt] at hstop
      exact ⟨h, .refl _ _, fun x q _ _ hlow hhigh => by omega⟩

end Matched

namespace EntryTable

theorem walkBack_even {table : EntryTable} {start : UInt32} {steps : Nat}
    (heven : address.toNat % 2 = 0) (h : table.walkBack address steps = some start) :
    start.toNat % 2 = 0 := by
  induction steps generalizing address with
  | zero =>
    simp only [walkBack] at h
    split at h
    · exact Option.some.inj h ▸ heven
    · exact absurd h.symm (Option.some_ne_none _)
  | succ steps ih =>
    simp only [walkBack] at h
    split at h
    · exact Option.some.inj h ▸ heven
    · refine ih ?_ h
      rw [UInt32.toNat_sub]
      have htwo : (2 : UInt32).toNat = 2 := rfl
      omega
    · exact absurd h.symm (Option.some_ne_none _)

end EntryTable

theorem toNat_clear_lowest (x : UInt32) : (x &&& 0xFFFFFFFE).toNat = 2 * (x.toNat / 2) := by
  have hbound := x.toNat_lt
  rw [UInt32.toNat_and]
  change x.toNat &&& 2 * (2 ^ 31 - 1) = _
  apply Nat.eq_of_testBit_eq
  intro i
  cases i with
  | zero => simp
  | succ i =>
    have hhalf (n : Nat) : 2 * n / 2 = n := by omega
    rw [Nat.testBit_and, Nat.testBit_succ, Nat.testBit_succ, Nat.testBit_succ, hhalf, hhalf,
      Nat.testBit_two_pow_sub_one]
    by_cases hi : i < 31
    · simp only [hi, decide_true, Bool.and_true]
    · have hzero : (x.toNat / 2).testBit i = false :=
        Nat.testBit_lt_two_pow (Nat.lt_of_lt_of_le (show x.toNat / 2 < 2 ^ 31 by omega)
          (Nat.pow_le_pow_right (by decide) (by omega)))
      rw [hzero, Bool.false_and]

theorem even_clear_lowest (x : UInt32) : x &&& 0xFFFFFFFE &&& 1 = 0 := by
  rw [UInt32.and_assoc]
  exact UInt32.and_zero

theorem and_one_of_and (h : x &&& 1 = 0) (mask : UInt32) : x &&& mask &&& 1 = 0 := by
  rw [UInt32.and_assoc, UInt32.and_comm mask, ← UInt32.and_assoc, h, UInt32.zero_and]

namespace CodeStore

variable (s : CodeStore) (config : Config) (address : UInt32)

/-- Where the search for entries that a write can reach starts. -/
def windowStart : Nat :=
  min ((s.entries.instructionStart (address &&& 0xFFFFFFFE)
      config.model.maxInstructionBytes).getD (address &&& 0xFFFFFFFE)).toNat
    ((address &&& 0xFFFFFFFE).toNat - (config.model.maxInstructionBytes - 2))

theorem redirectWindow_eq (bytes : Nat) :
    s.redirectWindow config address bytes =
      s.redirectEntries (s.windowStart config address).toUInt32 (address + bytes.toUInt32) :=
  rfl

theorem windowStart_spec :
    s.windowStart config address % 2 = 0 ∧
      s.windowStart config address ≤
        2 * (address.toNat / 2) - (config.model.maxInstructionBytes - 2) := by
  have hfirst := toNat_clear_lowest address
  have hfound : ((s.entries.instructionStart (address &&& 0xFFFFFFFE)
      config.model.maxInstructionBytes).getD (address &&& 0xFFFFFFFE)).toNat % 2 = 0 := by
    cases hsome : s.entries.instructionStart (address &&& 0xFFFFFFFE)
        config.model.maxInstructionBytes with
    | none =>
      rw [Option.getD_none, hfirst]
      omega
    | some start =>
      refine EntryTable.walkBack_even ?_ hsome
      rw [toNat_clear_lowest]
      omega
  have hlongest : config.model.maxInstructionBytes % 2 = 0 := by
    cases config.model <;> rfl
  unfold windowStart
  omega

theorem toNat_windowStart :
    (s.windowStart config address).toUInt32.toNat = s.windowStart config address := by
  have hle := (s.windowStart_spec config address).2
  have hbound := address.toNat_lt
  exact UInt32.toNat_ofNat_of_lt' (show _ < 2 ^ 32 by omega)

theorem endless_redirectAt : (s.redirectAt address).endless = s.endless := by
  unfold redirectAt redirect
  split
  · split <;> rfl
  · rfl

/-- A search goes on for ever if it is to stop at the last address of all, which is odd. -/
theorem endless_redirectEntries (stop : UInt32) (heven : address.toNat % 2 = 0) :
    (s.redirectEntries address stop).endless = (s.endless || decide (stop = 0xFFFFFFFF)) := by
  have hlast : (0xFFFFFFFF : UInt32).toNat = 2 ^ 32 - 1 := rfl
  have hbound := stop.toNat_lt
  fun_induction redirectEntries s address stop with
  | case1 s address hstop rest hnext ih =>
    have heven' : (address + 2).toNat % 2 = 0 := by
      rw [UInt32.toNat_add]
      change (address.toNat + 2) % 2 ^ 32 % 2 = 0
      omega
    rw [ih heven', endless_redirectAt]
  | case2 s address hstop rest hwraps =>
    have hsame : stop = 0xFFFFFFFF := by
      rw [UInt32.lt_iff_toNat_lt] at hstop hwraps
      rw [UInt32.toNat_add] at hwraps
      change ¬address.toNat < (address.toNat + 2) % 2 ^ 32 at hwraps
      exact UInt32.toNat_inj.mp (by omega)
    rw [decide_eq_true hsame, Bool.or_true]
  | case3 s address hstop =>
    have hother : stop ≠ 0xFFFFFFFF := by
      rintro rfl
      have hbound' := address.toNat_lt
      rw [UInt32.lt_iff_toNat_lt] at hstop
      omega
    rw [decide_eq_false hother, Bool.or_false]

theorem endless_redirectWindow (bytes : Nat) :
    (s.redirectWindow config address bytes).endless =
      (s.endless || decide (address + bytes.toUInt32 = 0xFFFFFFFF)) := by
  rw [redirectWindow_eq, endless_redirectEntries]
  rw [toNat_windowStart]
  exact (s.windowStart_spec config address).1

theorem endless_noteWrite (bytes : Nat) :
    (s.noteWrite config address bytes).endless =
      (s.endless || (s.isMarked config address ||
        s.isMarked config (address + (bytes - 1).toUInt32)) &&
          decide (address + bytes.toUInt32 = 0xFFFFFFFF)) := by
  unfold noteWrite
  split
  · rename_i hmarked
    rw [endless_redirectWindow, hmarked, Bool.true_and]
  · rename_i hunmarked
    rw [Bool.eq_false_iff.mpr hunmarked, Bool.false_and, Bool.or_false]

theorem endless_redirectRange {canonical : UInt32 → UInt32}
    (hcanonical : ∀ x, canonical x + 2 ≠ 0xFFFFFFFF) (start stop : UInt32) :
    (s.redirectRange config canonical start stop).endless = s.endless := by
  have hwords (count : Nat) (first : UInt32) :
      (s.redirectWords config canonical first count).endless = s.endless := by
    induction count generalizing s first with
    | zero => rfl
    | succ count ih =>
      rw [redirectWords, ih]
      split
      · have hstops : canonical first + (2 : Nat).toUInt32 ≠ 0xFFFFFFFF := hcanonical first
        rw [endless_redirectWindow, decide_eq_false hstops, Bool.or_false]
      · rfl
  unfold redirectRange
  split
  · rfl
  · exact hwords _ _

end CodeStore

namespace Matched

variable {view : GuestView}
  {gap : Option CodeUnit} {waits : List Wait}
  (h : Matched view a b leads gap pieces waits s t) (config : Config)
include h

theorem windowStart (address : UInt32) :
    t.windowStart config address = s.windowStart config address := by
  have hstart : t.entries.instructionStart (address &&& 0xFFFFFFFE)
      config.model.maxInstructionBytes = s.entries.instructionStart (address &&& 0xFFFFFFFE)
      config.model.maxInstructionBytes := (EntryTable.walkBack_congr h.slots _ _).symm
  rw [CodeStore.windowStart, hstart, CodeStore.windowStart]

/-- A write redirects the same entries in both stores: all those less than one longest instruction
before its end. -/
theorem redirectWindow (address : UInt32) (bytes : Nat) :
    Matched view a b leads gap pieces waits (s.redirectWindow config address bytes)
        (t.redirectWindow config address bytes) ∧
      Redirects (pieces.map toPair) s (s.redirectWindow config address bytes) ∧
      ∀ x, ∀ q ∈ pieces.map toPair, s.lookup x = some q.left.toUInt32 →
        2 * (address.toNat / 2) + 2 ≤ x.toNat + config.model.maxInstructionBytes →
        x.toNat < (address + bytes.toUInt32).toNat →
          (s.redirectWindow config address bytes).code.RedirectedAt q.left := by
  obtain ⟨heven, hle⟩ := s.windowStart_spec config address
  have hstart := s.toNat_windowStart config address
  rw [redirectWindow_eq, redirectWindow_eq, h.windowStart]
  obtain ⟨hmatched, hredirects, hwindow⟩ := h.redirectEntries
    (s.windowStart config address).toUInt32 (address + bytes.toUInt32) (by omega)
  exact ⟨hmatched, hredirects, fun x q hq hlookup hlow hhigh =>
    hwindow x q hq hlookup (by omega) hhigh⟩

theorem isMarked (address : UInt32) : t.isMarked config address = s.isMarked config address := by
  rw [CodeStore.isMarked, CodeStore.isMarked, h.regions]

theorem noteWrite (address : UInt32) (bytes : Nat) :
    Matched view a b leads gap pieces waits (s.noteWrite config address bytes)
        (t.noteWrite config address bytes) ∧
      Redirects (pieces.map toPair) s (s.noteWrite config address bytes) := by
  simp only [CodeStore.noteWrite, h.isMarked]
  split
  · obtain ⟨hmatched, hredirects, -⟩ := h.redirectWindow config address bytes
    exact ⟨hmatched, hredirects⟩
  · exact ⟨h, .refl _ _⟩

theorem noteWrite_redirects {config : Config} {bytes : Nat}
    (hmarked : s.isMarked config address = true ∨
      s.isMarked config (address + (bytes - 1).toUInt32) = true) (hq : q ∈ pieces.map toPair)
    (hlookup : s.lookup x = some q.left.toUInt32)
    (hlow : 2 * (address.toNat / 2) + 2 ≤ x.toNat + config.model.maxInstructionBytes)
    (hhigh : x.toNat < (address + bytes.toUInt32).toNat) :
    (s.noteWrite config address bytes).code.RedirectedAt q.left := by
  obtain ⟨-, -, hwindow⟩ := h.redirectWindow config address bytes
  rw [CodeStore.noteWrite, if_pos (by simpa using hmarked)]
  exact hwindow x q hq hlookup hlow hhigh

/-- Redirecting what was compiled from some words keeps stores matched, and reaches every entry
that a write to a marked word among them would reach. -/
theorem redirectWords (canonical : UInt32 → UInt32) (address : UInt32) (count : Nat) :
    Matched view a b leads gap pieces waits (s.redirectWords config canonical address count)
        (t.redirectWords config canonical address count) ∧
      Redirects (pieces.map toPair) s (s.redirectWords config canonical address count) ∧
      ∀ i < count, ∀ word, word = canonical (address + 2 * i.toUInt32) →
        s.isMarked config word = true → ∀ x, ∀ q ∈ pieces.map toPair,
          s.lookup x = some q.left.toUInt32 →
          2 * (word.toNat / 2) + 2 ≤ x.toNat + config.model.maxInstructionBytes →
          x.toNat < (word + 2).toNat →
            (s.redirectWords config canonical address count).code.RedirectedAt q.left := by
  induction count generalizing s t address with
  | zero => exact ⟨h, .refl _ _, fun i hi => absurd hi (Nat.not_lt_zero i)⟩
  | succ count ih =>
    -- One word is dealt with, or was not compiled from.
    have hfirst : ∃ s' t', s.redirectWords config canonical address (count + 1) =
          s'.redirectWords config canonical (address + 2) count ∧
        t.redirectWords config canonical address (count + 1) =
          t'.redirectWords config canonical (address + 2) count ∧
        Matched view a b leads gap pieces waits s' t' ∧
        Redirects (pieces.map toPair) s s' ∧
        (s.isMarked config (canonical address) = true → ∀ x, ∀ q ∈ pieces.map toPair,
          s.lookup x = some q.left.toUInt32 →
          2 * ((canonical address).toNat / 2) + 2 ≤
            x.toNat + config.model.maxInstructionBytes →
          x.toNat < (canonical address + 2).toNat → s'.code.RedirectedAt q.left) := by
      refine ⟨_, _, rfl, rfl, ?_⟩
      simp only [h.isMarked]
      split
      · obtain ⟨hmatched, hredirects, hwindow⟩ := h.redirectWindow config (canonical address) 2
        exact ⟨hmatched, hredirects, fun _ x q hq => hwindow x q hq⟩
      · rename_i hunmarked
        exact ⟨h, .refl _ _, fun hmarked => absurd hmarked hunmarked⟩
    obtain ⟨s', t', hs, ht, hmatched, hredirects, hword⟩ := hfirst
    obtain ⟨hrest, hredirects', hwords⟩ := ih hmatched (address + 2)
    rw [hs, ht]
    refine ⟨hrest, hredirects.trans hredirects', ?_⟩
    rintro i hi word rfl hmarked x q hq hlookup hlow hhigh
    cases i with
    | zero =>
      rw [words_zero] at hmarked hlow hhigh
      exact hredirects'.redirected hq (hword hmarked x q hq hlookup hlow hhigh)
    | succ i =>
      rw [words_succ] at hmarked hlow hhigh
      refine hwords i (by omega) _ rfl ?_ x q hq ((hredirects.lookup x).trans hlookup) hlow
        hhigh
      rw [CodeStore.isMarked, hredirects.regions]
      exact hmarked

theorem redirectRange (canonical : UInt32 → UInt32) (start stop : UInt32) :
    Matched view a b leads gap pieces waits (s.redirectRange config canonical start stop)
        (t.redirectRange config canonical start stop) ∧
      Redirects (pieces.map toPair) s (s.redirectRange config canonical start stop) := by
  unfold CodeStore.redirectRange
  split
  · exact ⟨h, .refl _ _⟩
  · obtain ⟨hmatched, hredirects, -⟩ := h.redirectWords config canonical (start &&& 0xFFFFFFFE)
      ((stop.toNat - (start &&& 0xFFFFFFFE).toNat + 1) / 2)
    exact ⟨hmatched, hredirects⟩

theorem setBreakpoint (hq : q ∈ pieces.map toPair) (x : UInt32) :
    Matched view a b leads gap pieces waits (s.setBreakpoint x q.left.toUInt32)
      (t.setBreakpoint x q.right.toUInt32) := by
  obtain ⟨p, hp, rfl⟩ := List.mem_map.mp hq
  obtain ⟨kind, opened, checked, moved, moved', hs, ht⟩ := h.head_cases hp
  obtain ⟨hin, hin'⟩ := h.head_within hp
  rcases setBreakpoint_spec hin hs x with ⟨hkind, hleft⟩ | ⟨hkind, hleft⟩
  · rcases setBreakpoint_spec hin' ht x with ⟨-, hright⟩ | ⟨heq, -⟩
    · rw [hleft, hright]
      exact h
    · exact absurd heq hkind
  · rcases setBreakpoint_spec hin' ht x with ⟨hne, -⟩ | ⟨-, hright⟩
    · exact absurd hkind hne
    · exact h.patched hp hleft hright

theorem restoreBoundary (hq : q ∈ pieces.map toPair) (x : UInt32) :
    Matched view a b leads gap pieces waits (s.restoreBoundary x q.left.toUInt32)
      (t.restoreBoundary x q.right.toUInt32) := by
  obtain ⟨p, hp, rfl⟩ := List.mem_map.mp hq
  obtain ⟨hin, hin'⟩ := h.head_within hp
  exact h.patched hp (restoreBoundary_spec hin x)
    (restoreBoundary_spec hin' x)

theorem entryKind (hq : q ∈ pieces.map toPair) :
    s.entryKind q.left.toUInt32 = t.entryKind q.right.toUInt32 := by
  obtain ⟨p, hp, rfl⟩ := List.mem_map.mp hq
  obtain ⟨kind, opened, checked, moved, moved', hs, ht⟩ := h.head_cases hp
  obtain ⟨hin, hin'⟩ := h.head_within hp
  rw [entryKind_eq (by omega) hs.second, entryKind_eq (by omega) ht.second]

end Matched

namespace CodeStore

theorem refresh_eq (s : CodeStore) (view : GuestView) (x : UInt32) :
    s.refresh view x =
      (s.code.here,
        match s.lookup (view.canonical x) with
        | some old =>
          (s.recompile view (view.instructionAt (view.canonical x)) s.code.here).moveEntry old
            s.code.here
        | none => s.recompile view (view.instructionAt (view.canonical x)) s.code.here) := by
  dsimp only [refresh]
  cases s.lookup (view.canonical x) <;> rfl

theorem size_refresh (s : CodeStore) (view : GuestView) (x : UInt32) :
    (s.recompile view (view.instructionAt (view.canonical x)) s.code.here).code.ops.size ≤
      (s.refresh view x).2.code.ops.size := by
  have hmove (r : CodeStore) (old native : CodePtr) :
      r.code.ops.size ≤ (r.moveEntry old native).code.ops.size :=
    CodeBuffer.size_emitAll { r.code with cursor := some old.toNat } [_]
  rw [refresh_eq]
  dsimp only
  split
  · exact hmove _ _ _
  · exact Nat.le_refl _

end CodeStore

namespace Matched

variable {view : GuestView}
  {fresh : CodeUnit → Prop} {ok : UInt32 → Prop}

theorem refresh (h : Matched view a b leads none pieces [] s t)
    (hview : view.Compiling leads ok fresh) (hx : ok (view.canonical x))
    (hagain : fresh (.instruction (view.instructionAt (view.canonical x))))
    {r r' : CodePtr × CodeStore} (hs : r = s.refresh (view.assign a) x)
    (ht : r' = t.refresh (view.assign b) x) (hroom : r.2.Fits) (hroom' : r'.2.Fits) :
    r.1 = s.code.ops.size.toUInt32 ∧ r'.1 = t.code.ops.size.toUInt32 ∧
      ∃ pieces' u, Matched view a b leads none pieces' [] r.2 r'.2 ∧
        Grown view fresh (some (view.canonical x >>> 1)) (pieces.map toPair) s
          (pieces'.map toPair) u ∧
        ⟨s.code.ops.size, t.code.ops.size,
          .instruction (view.instructionAt (view.canonical x))⟩ ∈ pieces'.map toPair ∧
        (s.lookup (view.canonical x) = none ∧ r.2 = u ∨
          ∃ p ∈ pieces', p.toPair ∈ pieces.map toPair ∧
            s.lookup (view.canonical x) = some p.left.toUInt32 ∧
            ∃ kind opened checked, Patched p.left kind opened checked (some s.code.ops.size) u
              r.2) := by
  subst hs ht
  have hview' (c : RegisterAssignment) : (view.assign c).canonical x = view.canonical x ∧
      (view.assign c).instructionAt (view.canonical x) =
        view.instructionAt (view.canonical x) := ⟨rfl, rfl⟩
  have hsize := Nat.lt_of_le_of_lt (s.size_refresh (view.assign a) x) hroom
  have hsize' := Nat.lt_of_le_of_lt (t.size_refresh (view.assign b) x) hroom'
  have hleft := s.refresh_eq (view.assign a) x
  have hright := t.refresh_eq (view.assign b) x
  simp only [hview'] at hsize hsize' hleft hright
  obtain ⟨pieces', hmatched, hgrown, hnew⟩ := h.recompile hview hx hagain rfl rfl hsize hsize'
  rw [hleft, hright, here_eq h.left.cursor, here_eq h.right.cursor] at *
  generalize s.recompile (view.assign a) _ _ = u at *
  generalize t.recompile (view.assign b) _ _ = u' at *
  refine ⟨rfl, rfl, pieces', u, ?_⟩
  rcases h.lookup (view.canonical x) with ⟨hs, ht⟩ | ⟨q, hq, -, -, hs, ht⟩
  · rw [hs, ht]
    exact ⟨hmatched, hgrown, hnew, .inl ⟨rfl, rfl⟩⟩
  · rw [hs, ht]
    obtain ⟨p, hp, rfl⟩ := List.mem_map.mp (hgrown.keeps q hq)
    obtain ⟨kind, opened, checked, moved, moved', hhead, hhead'⟩ := hmatched.head_cases hp
    obtain ⟨hin, hin'⟩ := hmatched.head_within hp
    have hpatched := moveEntry_spec hin hhead s.code.ops.size
    have hpatched' := moveEntry_spec hin' hhead' t.code.ops.size
    exact ⟨hmatched.patchedMoved hp hnew hpatched hpatched', hgrown, hnew,
      .inr ⟨p, hp, hq, rfl, kind, opened, checked, hpatched⟩⟩

end Matched

end Dynarec68k
