import Dynarec68k.Proofs.FetchedWords
import Dynarec68k.Proofs.WrittenCode

/-!
Code in step with memory. On the models with 24 address lines, where no range is repeated or goes beyond
the bus, the entry of an address is redirected or was made from the instruction that memory holds there:
`Current`. Everything that is done to memory and code keeps this, but for longs that are written across
the end of the bus, which change the first word of memory unnoticed.
-/

namespace Dynarec68k

open Host Relation CodeStore MemoryMap

variable {s s' : CodeStore} {config : Config} {view view' : GuestView} {inst : Instruction}
  {pairs pairs' : List Pair} {map memory : MemoryMap} {p q : Pair} {P P' : Pair → Prop}
  {checked start stop x y : UInt32} {safe : UInt32 → Prop} {again replaced : Option UInt32}

/-- A map with 24 address lines in which nothing is repeated and no range goes beyond the bus. Regions
are longs at least. -/
structure PlainBus (config : Config) (map : MemoryMap) : Prop where
  model : config.model.is68020 = false
  sound : map.Sound
  bus : map.addressMask = config.addressMask
  masks : ∀ chunk ∈ map.chunks, chunk.mask = 0xFFFFFFFF
  stops : ∀ chunk ∈ map.chunks, chunk.stop.toNat ≤ 2 ^ 24
  low : 2 ≤ config.trackingShift.toNat
  high : config.trackingShift.toNat ≤ 16

namespace PlainBus

variable (h : PlainBus config map)
include h

theorem lines : config.addressMask = 0xFFFFFF :=
  (Config.narrow h.model).1

theorem longest : config.model.maxInstructionBytes = 10 :=
  (Config.narrow h.model).2

theorem canonical (x : UInt32) : map.canonical x = x &&& 0xFFFFFF := by
  rw [canonical_of_masks h.masks, h.bus, h.lines]

theorem keepsEven : map.KeepsEven := by
  intro x hx
  rw [h.canonical]
  exact and_one_of_and hx _

theorem toNat_lt (hx : map.IsHome x) : x.toNat < 2 ^ 24 := by
  have hle : (x &&& 0xFFFFFF).toNat ≤ (0xFFFFFF : UInt32).toNat := by
    rw [UInt32.toNat_and]
    exact Nat.and_le_right
  rw [← h.canonical, hx.2] at hle
  exact Nat.lt_succ_of_le hle

theorem plainCode (hfixed : view.Fixed config map) (hx : map.IsHome x)
    (hexecutable : map.isExecutable x = true) : view.memory.PlainCode x where
  onBus := by
    rw [hfixed.shape.bus, h.bus, h.lines, ← h.canonical]
    exact hx.2
  room := by
    have hlt := h.toNat_lt hx
    have hwords : 2 * Model.maxInstructionWords = 22 := rfl
    omega
  code := by
    intro chunk hchunk
    have hshape := hfixed.shape.chunkAt? x
    rw [← hfixed.shape.isExecutable, isExecutable_eq, hchunk] at hexecutable
    rw [hchunk, Option.map_some, eq_comm, Option.map_eq_some_iff] at hshape
    obtain ⟨chunk', hchunk', hshape⟩ := hshape
    have hmask := h.masks chunk' (Array.mem_toList_iff.mp (List.mem_of_find?_eq_some hchunk'))
    exact ⟨hexecutable, (congrArg ChunkShape.mask hshape).symm.trans hmask⟩

theorem instruction_end (hfixed : view.Fixed config map) (hx : map.IsHome x) :
    x.toNat + (view.instructionAt x).length ≤ 2 ^ 24 := by
  have hlt := h.toNat_lt hx
  have hbus : x &&& view.memory.addressMask = x := by
    rw [hfixed.shape.bus, h.bus, h.lines, ← h.canonical]
    exact hx.2
  rcases view.instructionAt_end hx.1 hbus with hshort | ⟨chunk, hchunk, hstop⟩
  · have heven := and_one_eq_zero.mp hx.1
    omega
  · have hshape := hfixed.shape.chunkAt? x
    rw [hchunk, Option.map_some, eq_comm, Option.map_eq_some_iff] at hshape
    obtain ⟨chunk', hchunk', hshape⟩ := hshape
    have hstop' := h.stops chunk' (Array.mem_toList_iff.mp (List.mem_of_find?_eq_some hchunk'))
    rw [show chunk'.stop = chunk.stop from congrArg ChunkShape.stop hshape] at hstop'
    omega

theorem instruction_stays (hfixed : view.Fixed config map)
    (hsame : SameWords view.memory memory x ((view.instructionAt x).length / 2)) :
    (view.with memory).instructionAt x = view.instructionAt x := by
  have hmodel : view.config.model.is68020 = false := by
    rw [hfixed.config]
    exact h.model
  exact Instruction.decode_congr hmodel hsame.1 hsame.2

end PlainBus

/-- What is found in the second store was found in the first, and is still redirected if it was. -/
def Persists (P : Pair → Prop) (s s' : CodeStore) : Prop :=
  ∀ p, P p → s'.lookup p.unit.address = some p.left.toUInt32 →
    s.lookup p.unit.address = some p.left.toUInt32 ∧
      (s.entryKind p.left.toUInt32 = .redirected → s'.entryKind p.left.toUInt32 = .redirected)

theorem CodeStore.entryKind_congr {n : Nat} (hn : n + 1 < 2 ^ 32)
    (h : s'.code.ops[n + 1]? = s.code.ops[n + 1]?) :
    s'.entryKind n.toUInt32 = s.entryKind n.toUInt32 := by
  have hsite : s'.code.op? (n.toUInt32 + 1) = s.code.op? (n.toUInt32 + 1) := by
    rw [toUInt32_succ, CodeBuffer.op?_toUInt32 _ hn, CodeBuffer.op?_toUInt32 _ hn, h]
  rw [entryKind, entryKind, hsite]

namespace Sole

section

variable (h : Sole config map view P s)
include h

theorem redirects_range (canonical : UInt32 → UInt32)
    (start stop : UInt32) : ∃ pairs, P = (· ∈ pairs) ∧
      Redirects pairs s (s.redirectRange config canonical start stop) := by
  obtain ⟨-, pieces, hmatched, hP⟩ := h
  exact ⟨_, hP, (hmatched.redirectRange config canonical start stop).2⟩

theorem redirected_range (hq : P q) (hlookup : s.lookup x = some q.left.toUInt32)
    {canonical : UInt32 → UInt32} (hcanonical : canonical x = x)
    (hmarked : s.isMarked config x = true) (hlow : start.toNat ≤ x.toNat)
    (hhigh : x.toNat < stop.toNat) (htop : x.toNat + 2 < 2 ^ 32) :
    (s.redirectRange config canonical start stop).entryKind q.left.toUInt32 = .redirected := by
  have hwithin := h.within hq
  have heven := and_one_eq_zero.mp (EntryTable.lookup_eq_some.mp hlookup).1
  have hfirst := toNat_clear_lowest start
  have hlongest : 2 ≤ config.model.maxInstructionBytes := by
    cases config.model <;> decide
  have hword : (start &&& 0xFFFFFFFE) +
      2 * ((x.toNat - (start &&& 0xFFFFFFFE).toNat) / 2).toUInt32 = x := by
    apply UInt32.toNat_inj.mp
    rw [UInt32.toNat_add, UInt32.toNat_mul, Nat.toUInt32, UInt32.toNat_ofNat', hfirst]
    change (_ + 2 * _ % _) % _ = _
    omega
  obtain ⟨-, pieces, hmatched, rfl⟩ := h
  refine entryKind_eq (by omega)
    (?_ : _ = some (CodeBuffer.opening .redirected q.left 0).2)
  rw [CodeStore.redirectRange, if_neg (by rw [UInt32.le_iff_toNat_le]; omega)]
  refine (hmatched.redirectWords config canonical _ _).2.2
    ((x.toNat - (start &&& 0xFFFFFFFE).toNat) / 2) (by omega) x (by rw [hword, hcanonical]) hmarked x
    q hq hlookup (by omega) ?_
  rw [UInt32.toNat_add]
  change _ < (_ + 2) % _
  omega

theorem persists_redirects (hpairs : P = (· ∈ pairs)) (hredirects : Redirects pairs s s') :
    Persists P s s' := by
  intro p hp hlookup
  have hwithin := h.within hp
  refine ⟨(hredirects.lookup _).symm.trans hlookup, fun hkind => ?_⟩
  rw [hpairs] at hp
  rcases hredirects.heads p hp with hsame | ⟨y, checked, -, hhead⟩
  · rw [entryKind_congr (by omega) (hsame 1 (by omega))]
    exact hkind
  · exact entryKind_eq (by omega) hhead.second

theorem persists_patched (hq : P q) {kind : EntryKind} {opened : UInt32}
    (hpatched : Patched q.left kind opened checked none s s')
    (hkind : s.entryKind q.left.toUInt32 ≠ .redirected) : Persists P s s' := by
  intro p hp hlookup
  rw [CodeStore.lookup, hpatched.entries, ← CodeStore.lookup] at hlookup
  refine ⟨hlookup, fun hredirected => ?_⟩
  rcases h.heads_patched hq hp hpatched with rfl | hsame
  · exact absurd hredirected hkind
  · have hwithin := h.within hp
    rw [entryKind_congr (by omega) (hsame 1 (by omega))]
    exact hredirected

end

theorem persists_grown {ok : UInt32 → Prop} (h : Sole config map view (· ∈ pairs) s) {t : CodeStore}
    (h' : Sole config map view (· ∈ pairs') t) (htidy : Tidy map (· ∈ pairs) s)
    (hok : ∀ x, ok x → x &&& 1 = 0)
    (hgrown : Grown view (view.Fresh ok again) replaced pairs s pairs' s') (hp : p ∈ pairs)
    (hreplaced : replaced ≠ some (p.unit.address >>> 1))
    (hlookup : s'.lookup p.unit.address = some p.left.toUInt32) :
    s.lookup p.unit.address = some p.left.toUInt32 ∧
      (s.entryKind p.left.toUInt32 = .redirected → s'.entryKind p.left.toUInt32 = .redirected) := by
  have hwithin := h.within hp
  refine ⟨?_, fun hkind => ?_⟩
  · obtain ⟨q, hq, haddress, -, -, hfound, -⟩ := htidy.newest h hp
    rw [haddress] at hfound
    have hkept := hgrown.kept (fun u hu => hok _ hu.1) _ _ hfound hreplaced
    rw [h'.left_inj (hgrown.keeps p hp) (hgrown.keeps q hq)
      (Option.some.inj (hlookup.symm.trans hkept))]
    rw [← haddress] at hfound
    exact hfound
  · rw [entryKind_congr (by omega) (hgrown.heads p hp 1 (by omega))]
    exact hkind

theorem persists_refreshed (h : Sole config map view (· ∈ pairs) s)
    (h' : Sole config map view (· ∈ pairs') s') (htidy : Tidy map (· ∈ pairs) s)
    (htidy' : Tidy map (· ∈ pairs') s') (hrefreshed : Refreshed view map.IsHome x pairs s pairs' s') :
    Persists (· ∈ pairs) s s' := by
  intro p hp hlookup
  obtain ⟨q, r, hq, hleft, hunit, hgrown, hmoved⟩ := hrefreshed
  have hwithin := h.within hp
  have hqhome := htidy'.home q hq
  have haddress : q.unit.address = view.canonical x := by
    rw [hunit]
    exact view.instructionAt_address _
  -- what was compiled again is not found any more
  have hother : view.canonical x ≠ p.unit.address := by
    intro heq
    have hnewer := htidy'.not_newer h' (hgrown.keeps p hp) hlookup hq (haddress.trans heq)
    omega
  have hword : some (view.canonical x >>> 1) ≠ some (p.unit.address >>> 1) := by
    intro hword
    rw [haddress] at hqhome
    exact hother (eq_of_word hqhome.1 (htidy.home p hp).1 (Option.some.inj hword))
  rcases hmoved with ⟨-, rfl⟩ | ⟨old, hold, hfound, kind, opened, checked, hpatched⟩
  · exact persists_grown h h' htidy (fun _ hx => hx.1) hgrown hp hword hlookup
  · rw [CodeStore.lookup, hpatched.entries, ← CodeStore.lookup] at hlookup
    obtain ⟨hfirst, hkind⟩ :=
      persists_grown h h' htidy (fun _ hx => hx.1) hgrown hp hword hlookup
    refine ⟨hfirst, fun hredirected => ?_⟩
    have hsame := (h'.heads_patched (hgrown.keeps old hold) (hgrown.keeps p hp) hpatched).resolve_left
      fun heq => hother (htidy.current h hp (heq ▸ hfound)).1
    rw [entryKind_congr (by omega) (hsame 1 (by omega))]
    exact hkind hredirected

end Sole

/-- The entries of the addresses `safe` are redirected, or were made from what is in memory. -/
def Current (map : MemoryMap) (safe : UInt32 → Prop) (view : GuestView) (P : Pair → Prop)
    (s : CodeStore) : Prop :=
  ∀ p, P p → ∀ inst, p.unit = .instruction inst → safe inst.address →
    map.isExecutable inst.address = true → s.lookup inst.address = some p.left.toUInt32 →
    s.entryKind p.left.toUInt32 ≠ .redirected → view.instructionAt inst.address = inst

/-- Tidy code whose regions are marked. -/
structure Kept (config : Config) (map : MemoryMap) (P : Pair → Prop) (s : CodeStore) : Prop where
  tidy : Tidy map P s
  marked : Marked config map P s
  units : ∀ p, P p → map.isExecutable p.unit.address = true →
    ∃ inst : Instruction, p.unit = .instruction inst

namespace Kept

theorem home (h : Kept config map P s) (hp : P p) (hunit : p.unit = .instruction inst) :
    map.IsHome inst.address := by
  have hhome := h.tidy.home p hp
  rwa [hunit] at hhome

theorem added (h : Kept config map (· ∈ pairs) s) (hfixed : view.Fixed config map)
    (hgrown : Grown view (view.Fresh map.IsHome again) replaced pairs s pairs' s') (p : Pair)
    (hp : p ∈ pairs') (hexecutable : map.isExecutable p.unit.address = true) :
    ∃ inst : Instruction, p.unit = .instruction inst := by
  rcases hgrown.added p hp with hold | ⟨⟨-, hunit | ⟨-, hunit⟩⟩, -⟩
  · exact h.units p hold hexecutable
  · rw [GuestView.unitAt, hfixed.shape.isExecutable, if_pos hexecutable] at hunit
    exact ⟨_, hunit⟩
  · exact ⟨_, hunit⟩

theorem keeps (h : Kept config map P s) (hsole : Sole config map view P s)
    (hsole' : Sole config map view P' s') (hreworked : Reworked view map.IsHome P s P' s') :
    Kept config map P' s' where
  tidy := h.tidy.keeps hsole hsole' hreworked
  marked := h.marked.keeps hsole (fun _ hx => hx.2) hreworked
  units := by
    cases hreworked with
    | redirected => exact h.units
    | patched => exact h.units
    | grown hpairs hgrown =>
      subst hpairs
      exact h.added hsole.fixed hgrown
    | refreshed hpairs hrefreshed =>
      subst hpairs
      obtain ⟨q, r, -, -, -, hgrown, -⟩ := hrefreshed
      exact h.added hsole.fixed hgrown

theorem initial (config : Config) (map : MemoryMap) :
    Kept config map (fun _ => False) .initial := by
  refine ⟨⟨?_, ?_, ?_⟩, ⟨?_, ?_⟩, ?_⟩ <;> exact fun _ hp => absurd hp not_false

end Kept

def Steady.kept {config : Config} {map : MemoryMap} (heven : map.KeepsEven) (hsound : map.Sound) :
    Steady config map where
  ok := map.IsHome
  Inv := Kept config map
  stays hfixed := hfixed.stays_even heven
  even hx := heven.isHome hsound hx
  opened hkept hp hhead := (Steady.tidy heven hsound : Steady config map).opened hkept.tidy hp hhead
  keeps hsole hsole' hkept hreworked := hkept.keeps hsole hsole' hreworked

def PlainBus.kept {config : Config} {map : MemoryMap} (h : PlainBus config map) :
    Steady config map :=
  .kept h.keepsEven h.sound

namespace Current

theorem step (h : Current map safe view P s) (hpersists : Persists P s s')
    (hsame : ∀ p, P p → ∀ inst, p.unit = .instruction inst → safe inst.address →
      map.isExecutable inst.address = true → s.lookup inst.address = some p.left.toUInt32 →
      s'.entryKind p.left.toUInt32 ≠ .redirected → view.instructionAt inst.address = inst →
      view'.instructionAt inst.address = inst)
    (hfixed : view'.Fixed config map)
    (hnew : ∀ p, P' p → P p ∨ ∃ again, view'.Fresh map.IsHome again p.unit) :
    Current map safe view' P' s' := by
  intro p hp inst hunit hsafe hexecutable hlookup hkind
  have haddress : p.unit.address = inst.address := by
    rw [hunit]
    rfl
  rcases hnew p hp with hold | ⟨again, hfresh⟩
  · have hstill := hpersists p hold (haddress ▸ hlookup)
    rw [haddress] at hstill
    have hold' := h p hold inst hunit hsafe hexecutable hstill.1
      fun hredirected => hkind (hstill.2 hredirected)
    exact hsame p hold inst hunit hsafe hexecutable hstill.1 hkind hold'
  · rcases hfresh.2 with hunit' | ⟨-, hunit'⟩
    · rw [GuestView.unitAt, hfixed.shape.isExecutable, haddress, if_pos hexecutable, hunit]
        at hunit'
      exact (CodeUnit.instruction.inj hunit').symm
    · rw [haddress, hunit] at hunit'
      exact (CodeUnit.instruction.inj hunit').symm

theorem recode (h : Current map safe view P s) (hpersists : Persists P s s')
    (hfixed : view.Fixed config map)
    (hnew : ∀ p, P' p → P p ∨ ∃ again, view.Fresh map.IsHome again p.unit) :
    Current map safe view P' s' :=
  h.step hpersists (fun _ _ _ _ _ _ _ _ hinst => hinst) hfixed hnew

theorem review (h : Current map safe view P s)
    (hview : ∀ x, view'.instructionAt x = view.instructionAt x) : Current map safe view' P s := by
  intro p hp inst hunit hsafe hexecutable hlookup hkind
  rw [hview]
  exact h p hp inst hunit hsafe hexecutable hlookup hkind

theorem locate (h : Current map safe view (· ∈ pairs) s)
    (hsole : Sole config map view (· ∈ pairs) s) (hsole' : Sole config map view (· ∈ pairs') s')
    (htidy : Tidy map (· ∈ pairs) s)
    (hgrown : Grown view (view.Fresh map.IsHome none) none pairs s pairs' s') :
    Current map safe view (· ∈ pairs') s' := by
  refine h.recode (fun p hp hlookup => ?_) hsole.fixed fun p hp => ?_
  · exact hsole.persists_grown hsole' htidy (fun _ hx => hx.1) hgrown hp nofun hlookup
  · exact (hgrown.added p hp).imp_right fun hnew => ⟨none, hnew.1⟩

theorem refresh (h : Current map safe view (· ∈ pairs) s)
    (hsole : Sole config map view (· ∈ pairs) s) (hsole' : Sole config map view (· ∈ pairs') s')
    (htidy : Tidy map (· ∈ pairs) s) (hrefreshed : Refreshed view map.IsHome x pairs s pairs' s') :
    Current map safe view (· ∈ pairs') s' := by
  have htidy' := htidy.refreshed hsole hsole' hrefreshed
  refine h.recode (hsole.persists_refreshed hsole' htidy htidy' hrefreshed) hsole.fixed fun p hp => ?_
  obtain ⟨q, r, -, -, -, hgrown, -⟩ := hrefreshed
  exact (hgrown.added p hp).imp_right fun hnew => ⟨_, hnew.1⟩

end Current

theorem MemoryMap.clear_word {n first bytes : Nat}
    (hclear : ∀ a : UInt32, 2 * (first / 2) ≤ a.toNat → a.toNat < first + bytes → map.Clear x n a)
    (hlow : 2 * (first / 2) ≤ 2 * (y.toNat / 2)) (hhigh : 2 * (y.toNat / 2) + 1 < first + bytes) :
    map.Clear x n (y &&& 0xFFFFFFFE) ∧ map.Clear x n ((y &&& 0xFFFFFFFE) + 1) := by
  have hfirst := toNat_clear_lowest y
  have hsecond : ((y &&& 0xFFFFFFFE) + 1).toNat = 2 * (y.toNat / 2) + 1 := by
    have hbound := y.toNat_lt
    rw [UInt32.toNat_add, hfirst, UInt32.toNat_one, Nat.mod_eq_of_lt (by omega)]
  exact ⟨hclear _ (by omega) (by omega), hclear _ (by omega) (by omega)⟩

namespace PlainBus

variable (h : PlainBus config map)

include h

theorem addressMask (hfixed : view.Fixed config map) : view.memory.addressMask = 0xFFFFFF := by
  rw [hfixed.shape.bus, h.bus, h.lines]

/-- Longs change what is at their two words. Where these are on different sides of the end of the bus,
the second is the first word of memory. -/
theorem sameWords_long (hfixed : view.Fixed config map) {n : Nat} (value : UInt32)
    (hsafe : y ≠ 0 ∨ view.memory.isTracked y = false) (heven : y &&& 1 = 0) (hy : view.memory.PlainCode y)
    (hclear : ∀ a : UInt32, 2 * ((x &&& 0xFFFFFF).toNat / 2) ≤ a.toNat →
      a.toNat < (x &&& 0xFFFFFF).toNat + Size.long.bytes → view.memory.Clear y n a) :
    SameWords view.memory (view.memory.write32 x value).2 y n ∧
      SameWords view.memory (view.memory.write32LowFirst x value).2 y n := by
  have hbytes : Size.long.bytes = 4 := rfl
  have hmask (z : UInt32) : (z &&& 0xFFFFFF).toNat = z.toNat % 2 ^ 24 := by
    rw [UInt32.toNat_and]
    exact Nat.and_two_pow_sub_one_eq_mod z.toNat 24
  refine sameWords_write32 hy value ?_
  rw [h.addressMask hfixed]
  intro b hb
  rcases List.mem_cons.mp hb with rfl | hb
  · exact clear_word hclear (by omega) (by omega)
  · obtain rfl := List.mem_singleton.mp hb
    have hsum : (x + 2).toNat = (x.toNat + 2) % 2 ^ 32 := UInt32.toNat_add x 2
    have hfirst := hmask x
    have hsecond := hmask (x + 2)
    by_cases hcrossed : (x &&& 0xFFFFFF).toNat + 2 < 2 ^ 24
    · exact clear_word hclear (by omega) (by omega)
    · -- the first word of memory, which belongs to no other instruction than the first
      have heven' := and_one_eq_zero.mp heven
      have hword := toNat_clear_lowest (x + 2 &&& 0xFFFFFF)
      have hnext : ((x + 2 &&& 0xFFFFFF &&& 0xFFFFFFFE) + 1).toNat = 1 := by
        rw [UInt32.toNat_add, hword, UInt32.toNat_one]
        omega
      have hne (chunk : Chunk) (hchunk : view.memory.chunkAt? y = some chunk)
          (hwrite : chunk.access.write = true) : y.toNat ≠ 0 := by
        intro hzero
        refine hsafe.elim (fun hne => hne (UInt32.toNat_inj.mp hzero)) fun hfixed => ?_
        rw [isTracked_eq, hchunk, Option.map_some, Option.getD_some, Chunk.isTracked,
          (hy.code chunk hchunk).1, hwrite] at hfixed
        cases hfixed
      constructor
      · intro chunk hchunk hwrite k _ heq
        have hpositive := hne chunk hchunk hwrite
        omega
      · intro chunk hchunk hwrite k _ heq
        have hpositive := hne chunk hchunk hwrite
        omega

variable (hsole : Sole config map view P s) (hkept : Kept config map P s)
include hsole hkept

/-- A write that leaves the entry of an instruction as it is has hit none of its bytes. -/
theorem clear (hp : P p) (hunit : p.unit = .instruction inst)
    (hexecutable : map.isExecutable inst.address = true)
    (hlookup : s.lookup inst.address = some p.left.toUInt32)
    (hinst : view.instructionAt inst.address = inst) {address : UInt32} {size : Size}
    (haddress : address.toNat < 2 ^ 24)
    (hkind : (s.noteWrite config address size.bytes).entryKind p.left.toUInt32 ≠ .redirected)
    {a : UInt32} (hlow : 2 * (address.toNat / 2) ≤ a.toNat)
    (hhigh : a.toNat < address.toNat + size.bytes) :
    view.memory.Clear inst.address (inst.length / 2) a := by
  have hhome := hkept.home hp hunit
  have hfixed := hsole.fixed
  have hend := h.instruction_end hfixed hhome
  have hwords := view.instructionAt_even inst.address
  have hlongest : inst.length ≤ config.model.maxInstructionBytes := by
    rw [h.longest, ← hinst]
    refine Instruction.decode_length_le_ten ?_ _ _
    rw [hfixed.config]
    exact h.model
  rw [hinst] at hwords hend
  have heven := and_one_eq_zero.mp hhome.1
  have hbytes : 0 < size.bytes ∧ size.bytes ≤ 4 := by
    cases size <;> decide
  intro chunk hchunk hwrite k hk heq
  have htracked : map.isTracked inst.address = true := by
    rw [← hfixed.shape.isExecutable, isExecutable_eq, hchunk] at hexecutable
    rw [← hfixed.shape.isTracked, isTracked_eq, hchunk]
    simp only [Option.map_some, Option.getD_some] at hexecutable ⊢
    rw [Chunk.isTracked, hexecutable, hwrite]
    rfl
  -- a byte before an odd address is in the same word, and so in the same instruction
  have hhit : inst.Hit address size.bytes (max a.toNat address.toNat) := by
    refine ⟨Nat.le_max_right _ _, ?_, ?_, ?_⟩ <;> omega
  refine hkind (hsole.redirects_hit hkept.marked h.high hp hunit hlookup htracked ?_ hwords hlongest
    (.inr (.inr h.low)) (by omega) hhit)
  rw [h.lines]
  exact hend

variable (hcurrent : Current map safe view P s)
include hcurrent

theorem current_written (hshape : SameShape view.memory memory) (address : UInt32)
    (size : Size)
    (hsame : ∀ x n, safe x → x &&& 1 = 0 → view.memory.PlainCode x →
      (∀ a : UInt32, 2 * ((address &&& 0xFFFFFF).toNat / 2) ≤ a.toNat →
        a.toNat < (address &&& 0xFFFFFF).toNat + size.bytes → view.memory.Clear x n a) →
      SameWords view.memory memory x n) :
    Current map safe (view.with memory) P (s.noteWrite config (memory.canonical address) size.bytes) := by
  have hfixed : (view.with memory).Fixed config map := hsole.fixed.congr rfl hshape
  have hcanonical : memory.canonical address = address &&& 0xFFFFFF := by
    rw [show memory.canonical address = map.canonical address from hfixed.canonical address,
      h.canonical]
  rw [hcanonical]
  obtain ⟨pairs, hpairs, hredirects⟩ : ∃ pairs, P = (· ∈ pairs) ∧
      Redirects pairs s (s.noteWrite config (address &&& 0xFFFFFF) size.bytes) := by
    obtain ⟨-, pieces, hmatched, hP⟩ := hsole
    exact ⟨_, hP, (hmatched.noteWrite config _ _).2⟩
  refine hcurrent.step (hsole.persists_redirects hpairs hredirects) ?_ hfixed
    fun p hp => .inl hp
  intro p hp inst hunit hsafe hexecutable hlookup hkind hinst
  have hhome := hkept.home hp hunit
  have hbus : (address &&& 0xFFFFFF).toNat < 2 ^ 24 := by
    rw [UInt32.toNat_and]
    exact Nat.lt_of_le_of_lt Nat.and_le_right (by decide)
  have hwords := hsame inst.address (inst.length / 2) hsafe hhome.1
    (h.plainCode hsole.fixed hhome hexecutable) fun a hlow hhigh =>
      h.clear hsole hkept hp hunit hexecutable hlookup hinst hbus hkind hlow hhigh
  rw [h.instruction_stays hsole.fixed (hinst.symm ▸ hwords), hinst]

theorem current_write (x : UInt32) (w : Write)
    (hsafe : ∀ y, safe y → y ≠ 0 ∨ map.isTracked y = false) :
    Current map safe (view.with (view.memory.write x w).2) P
      (s.noteWrite config ((view.memory.write x w).2.canonical x) w.bytes) := by
  have hshape := view.memory.sameShape_write x w
  have hmask := h.addressMask hsole.fixed
  simp only [← hsole.fixed.shape.isTracked] at hsafe
  cases w with
  | byte value =>
    refine h.current_written hsole hkept hcurrent hshape x .byte fun y n _ _ hy hclear => ?_
    refine sameWords_write8 hy value ?_
    rw [hmask]
    exact hclear _ (by omega) (Nat.lt_succ_self _)
  | word value =>
    refine h.current_written hsole hkept hcurrent hshape x .word fun y n _ _ hy hclear => ?_
    have hbytes : Size.word.bytes = 2 := rfl
    have hword := clear_word hclear (y := x &&& 0xFFFFFF) (by omega) (by omega)
    rw [← hmask] at hword
    exact sameWords_write16 hy value hword.1 hword.2
  | long value =>
    exact h.current_written hsole hkept hcurrent hshape x .long fun y n hy heven hplain hclear =>
      (h.sameWords_long hsole.fixed value (hsafe y hy) heven hplain hclear).1
  | longLowFirst value =>
    exact h.current_written hsole hkept hcurrent hshape x .long fun y n hy heven hplain hclear =>
      (h.sameWords_long hsole.fixed value (hsafe y hy) heven hplain hclear).2

end PlainBus

theorem MemoryMap.Sound.start_inj (h : map.Sound) {c d : Chunk} (hc : c ∈ map.chunks.toList)
    (hd : d ∈ map.chunks.toList) (heq : c.start = d.start) : c = d := by
  have hcontains (e : Chunk) (he : e ∈ map.chunks.toList) : e.contains e.start = true := by
    rw [Chunk.contains, Bool.and_eq_true, decide_eq_true_eq, decide_eq_true_eq]
    exact ⟨UInt32.le_refl _, h.filled e he⟩
  have hfirst := find?_contains h.apart hc (hcontains c hc)
  have hsecond := find?_contains h.apart hd (hcontains d hd)
  rw [heq] at hfirst
  exact Option.some.inj (hfirst.symm.trans hsecond)

namespace PlainBus

variable (h : PlainBus config map)
 (hsole : Sole config map view P s)
  (hkept : Kept config map P s) {first : UInt32} {bank : Nat}
  (hbank : view.memory.selectBank start bank = .ok (some (first, stop), memory))
include h hsole hkept hbank

theorem redirected_selectBank (hp : P p) (hunit : p.unit = .instruction inst)
    (hexecutable : map.isExecutable inst.address = true)
    (hlookup : s.lookup inst.address = some p.left.toUInt32) {chunk : Chunk}
    (hchunk : view.memory.chunkAt? inst.address = some chunk) (hstart : chunk.start = start) :
    (s.redirectRange config memory.canonical first stop).entryKind p.left.toUInt32 =
      .redirected := by
  have hwithin := hsole.within hp
  have hfixed := hsole.fixed
  have hshape := view.memory.sameShape_selectBank hbank
  have hhome := hkept.home hp hunit
  have hplain := h.plainCode hfixed hhome hexecutable
  have hlt := h.toNat_lt hhome
  have heven := and_one_eq_zero.mp hhome.1
  obtain ⟨i, banks, active, hstart', hbanked, rfl, hstop, -⟩ := selectBank_ok hbank
  have hmem := List.mem_of_find?_eq_some hchunk
  obtain rfl : chunk = view.memory.chunk i :=
    hfixed.sound.start_inj hmem (Array.getElem_mem_toList i.isLt) (hstart.trans hstart'.symm)
  have hinside := List.find?_some hchunk
  rw [hplain.onBus] at hinside
  simp only [Chunk.contains, Bool.and_eq_true, decide_eq_true_eq, hstart,
    UInt32.le_iff_toNat_le, UInt32.lt_iff_toNat_lt] at hinside
  have hstop' : stop.toNat = (view.memory.chunk i).stop.toNat := by
    have hbound := (view.memory.chunk i).stop.toNat_lt
    have hperiod : (view.memory.chunk i).period =
        (view.memory.chunk i).stop.toNat - first.toNat := by
      rw [Chunk.period, (hplain.code _ hchunk).2, hstart]
      exact Nat.min_eq_left (by change _ ≤ 2 ^ 32 - 1 + 1; omega)
    rw [hstop, hperiod, Nat.toUInt32, UInt32.toNat_ofNat', Nat.mod_eq_of_lt (by omega)]
    omega
  have hmarked : s.isMarked config inst.address = true := by
    refine Std.HashSet.contains_iff_mem.mpr (hkept.marked.regions p hp inst hunit ?_ _ ?_)
    · have hcode := (hplain.code _ hchunk).1
      rw [← hfixed.shape.isTracked, isTracked_eq, hchunk, Option.map_some,
        Option.getD_some, Chunk.isTracked, hcode, hbanked, Backing.isBanked, Bool.or_true]
      rfl
    · exact List.mem_map.mpr ⟨0, List.mem_range.mpr (Nat.succ_pos _), UInt32.add_zero _⟩
  refine hsole.redirected_range hp hlookup ?_ hmarked ?_ ?_ ?_
  · rw [hshape.canonical, hfixed.shape.canonical, hhome.2]
  · omega
  · omega
  · omega

theorem current_selectBank (hcurrent : Current map safe view P s) :
    Current map safe (view.with memory) P (s.redirectRange config memory.canonical first stop) := by
  obtain ⟨pairs, hpairs, hredirects⟩ := hsole.redirects_range memory.canonical first stop
  refine hcurrent.step (hsole.persists_redirects hpairs hredirects) ?_
    (hsole.fixed.congr rfl (view.memory.sameShape_selectBank hbank)) fun p hp => .inl hp
  intro p hp inst hunit hsafe hexecutable hlookup hkind hinst
  rw [h.instruction_stays hsole.fixed, hinst]
  refine sameWords_selectBank hbank fun chunk hchunk hstart => ?_
  exact hkind (h.redirected_selectBank hsole hkept hbank hp hunit hexecutable hlookup hchunk hstart)

end PlainBus

namespace Current

variable
 (h : Current map safe view P s)
  (hsole : Sole config map view P s)
include h hsole

theorem invalidate (canonical : UInt32 → UInt32) (start stop : UInt32) :
    Current map safe view P (s.redirectRange config canonical start stop) := by
  obtain ⟨pairs, hpairs, hredirects⟩ := hsole.redirects_range canonical start stop
  exact h.recode (hsole.persists_redirects hpairs hredirects) hsole.fixed fun p hp => .inl hp

theorem restoreBoundary (hq : P q) (x : UInt32) (hkind : s.entryKind q.left.toUInt32 ≠ .redirected) :
    Current map safe view P (s.restoreBoundary x q.left.toUInt32) := by
  have hpatched := restoreBoundary_spec (hsole.within hq) x
  exact h.recode (hsole.persists_patched hq hpatched hkind) hsole.fixed fun p hp => .inl hp

theorem placeBreakpoint (x : UInt32) : Current map safe view P (s.placeBreakpoint x) := by
  unfold CodeStore.placeBreakpoint
  cases hlookup : s.lookup x with
  | none => exact h
  | some n =>
    obtain ⟨q, hq, rfl, -, -⟩ := hsole.lookup hlookup
    have hwithin := hsole.within hq
    obtain ⟨kind, opened, checked, moved, hhead⟩ := hsole.headed hq
    have hkind := entryKind_eq (by omega) hhead.second
    dsimp only
    rcases setBreakpoint_spec hwithin hhead x with ⟨-, heq⟩ | ⟨rfl, hpatched⟩
    · rw [heq]
      exact h
    · refine h.recode (hsole.persists_patched hq hpatched ?_) hsole.fixed fun p hp => .inl hp
      rw [hkind]
      exact EntryKind.noConfusion

theorem liftBreakpoint (x : UInt32) : Current map safe view P (s.liftBreakpoint x) := by
  unfold CodeStore.liftBreakpoint
  cases hlookup : s.lookup x with
  | none => exact h
  | some n =>
    obtain ⟨q, hq, rfl, -, -⟩ := hsole.lookup hlookup
    dsimp only
    split
    · rename_i hkind
      refine h.restoreBoundary hsole hq x ?_
      rw [hkind]
      exact EntryKind.noConfusion
    · exact h

end Current

theorem Host.CodeBuffer.HeadAt.breakpoint_unique {code : CodeBuffer} {n : Nat} {kind : EntryKind}
    {checked' : UInt32} (h : code.HeadAt n .breakpoint x checked none)
    (h' : code.HeadAt n kind y checked' none) : x = y := by
  have hfirst := h.first.symm.trans h'.first
  have hsecond := h.second.symm.trans h'.second
  cases kind with
  | breakpoint => simpa [opening] using hfirst
  | boundary => simp [opening] at hsecond
  | redirected => simp [opening] at hsecond

theorem Tidy.called (h : Tidy map P s) (hsole : Sole config map view P s) (hp : P p)
    (hhead : s.code.HeadAt p.left .breakpoint x checked none) (hq : P q)
    (hlookup : s.lookup x = some q.left.toUInt32) : q = p := by
  rcases h.heads p hp with ⟨hfound, kind, hhead'⟩ | ⟨r, -, -, -, hjump⟩
  · rw [← hhead.breakpoint_unique hhead'] at hfound
    exact hsole.left_inj hq hp (Option.some.inj (hlookup.symm.trans hfound))
  · have hfirst := hhead.first.symm.trans hjump
    simp [CodeBuffer.opening] at hfirst

/-- Memory is not changed behind the processor's back. -/
def Operation.Noticed (operation : Operation) : Prop :=
  ∀ change shape, operation ≠ .changeMemory change shape

/-- Code stays in step with memory whatever is done, but for the first word of memory if that can be
written. -/
def Upkeep.current {config : Config} {map : MemoryMap} (h : PlainBus config map) :
    Upkeep config map Operation.Noticed where
  ok := map.IsHome
  Inv view P s := Kept config map P s ∧
    Current map (fun x => x ≠ 0 ∨ map.isTracked x = false) view P s
  stays hfixed := hfixed.stays_even h.keepsEven
  even hx := h.keepsEven.isHome h.sound hx
  opened _ hinv hp hhead := h.kept.opened hinv.1 hp hhead
  similar hinv hsimilar := ⟨hinv.1, hinv.2.review fun x => (hsimilar.unitAt x).1⟩
  write x w hsole hinv :=
    ⟨h.kept.upkeep.write x w hsole hinv.1,
      h.current_write hsole hinv.1 hinv.2 x w fun _ hy => hy⟩
  locate x hx hsole hinv hsole' hgrown :=
    ⟨h.kept.upkeep.locate x hx hsole hinv.1 hsole' hgrown,
      hinv.2.locate hsole hsole' hinv.1.tidy hgrown⟩
  refresh x hp hhead hsole hinv hsole' hrefreshed :=
    ⟨h.kept.upkeep.refresh x hp hhead hsole hinv.1 hsole' hrefreshed,
      hinv.2.refresh hsole hsole' hinv.1.tidy hrefreshed⟩
  stale hsole hinv hp hhead hgone hq hlookup := by
    refine ⟨h.kept.upkeep.stale hsole hinv.1 hp hhead hgone hq
      hlookup, hinv.2.restoreBoundary hsole hq _ ?_⟩
    obtain rfl := hinv.1.tidy.called hsole hp hhead hq hlookup
    have hwithin := hsole.within hp
    rw [entryKind_eq (by omega) hhead.second]
    exact EntryKind.noConfusion
  invalidate start stop _ hsole hinv :=
    ⟨h.kept.upkeep.invalidate start stop True.intro hsole hinv.1,
      hinv.2.invalidate hsole _ start stop⟩
  selectBank start bank _ hbank hsole hinv :=
    ⟨h.kept.upkeep.selectBank start bank True.intro hbank hsole hinv.1,
      h.current_selectBank hsole hinv.1 hbank hinv.2⟩
  insertBreakpoint address answers _ hhas hsole hinv :=
    ⟨h.kept.upkeep.insertBreakpoint address answers True.intro hhas
      hsole hinv.1, (hinv.2.placeBreakpoint hsole _).review fun _ => rfl⟩
  removeBreakpoint address _ hhas hsole hinv :=
    ⟨h.kept.upkeep.removeBreakpoint address True.intro hhas hsole
      hinv.1, (hinv.2.liftBreakpoint hsole _).review fun _ => rfl⟩
  changeMemory change shape hnoticed := absurd rfl (hnoticed change shape)

end Dynarec68k
