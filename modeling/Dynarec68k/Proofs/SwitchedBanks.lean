import Dynarec68k.Proofs.CurrentCode
import Dynarec68k.Proofs.RepeatedCode

namespace Dynarec68k

open Host Relation MemoryMap UInt32

variable {map map' memory : MemoryMap} {bank : Nat} {first start stop x y : UInt32}
  {config : Config}

namespace CodeStore

theorem regionOf_word (hlow : 1 ≤ config.trackingShift.toNat)
    (hhigh : config.trackingShift.toNat ≤ 16) (hword : x >>> 1 = y >>> 1) :
    regionOf config x = regionOf config y := by
  have hbits (i : Nat) (hi : 1 ≤ i) : x.toNat.testBit i = y.toNat.testBit i := by
    have hhalves : x.toNat >>> 1 = y.toNat >>> 1 := by
      simpa [UInt32.toNat_shiftRight] using congrArg UInt32.toNat hword
    have hbit := congrArg (Nat.testBit · (i - 1)) hhalves
    simpa [Nat.testBit_shiftRight, Nat.add_sub_cancel' hi] using hbit
  apply UInt32.toNat_inj.mp
  rw [regionOf, regionOf, UInt32.toNat_shiftRight, UInt32.toNat_shiftRight, UInt32.toNat_and,
    UInt32.toNat_and, Nat.mod_eq_of_lt (by omega : config.trackingShift.toNat < 32)]
  apply Nat.eq_of_testBit_eq
  intro i
  rw [Nat.testBit_shiftRight, Nat.testBit_shiftRight, Nat.testBit_and, Nat.testBit_and,
    hbits _ (by omega)]

end CodeStore

namespace MemoryMap

variable {chunk : Chunk}

theorem toNat_lt_period (hchunk : map.chunkAt? x = some chunk) (hhome : map.canonical x = x)
    (honBus : x &&& map.addressMask = x) :
    chunk.start.toNat ≤ x.toNat ∧ x.toNat < chunk.start.toNat + chunk.period := by
  have hinside := List.find?_some hchunk
  rw [honBus, Chunk.contains, Bool.and_eq_true, decide_eq_true_eq, decide_eq_true_eq,
    le_iff_toNat_le, lt_iff_toNat_lt] at hinside
  have hoffset := (toNat_canonical hchunk).1
  have hmask : (chunk.offset (x &&& map.addressMask)).toNat ≤ chunk.mask.toNat := by
    rw [Chunk.offset, UInt32.toNat_and]
    exact Nat.and_le_right
  rw [hhome] at hoffset
  rw [Chunk.period]
  omega

theorem Sound.canonical_word (h : map.Sound) (hchunk : map.chunkAt? y = some chunk)
    (hstart : chunk.start &&& 1 = 0) (hhome : map.canonical y = y) (hx : x &&& 1 = 0)
    (hword : y >>> 1 = x >>> 1) : map.chunkAt? x = some chunk ∧ map.canonical x = x := by
  by_cases hy : y &&& 1 = 0
  · obtain rfl := eq_of_word hy hx hword
    exact ⟨hchunk, hhome⟩
  have honBus : y &&& map.addressMask = y := by
    rw [← hhome]
    exact h.canonical_onBus y
  rw [and_one_eq_zero] at hstart hx hy
  have hnext : y.toNat = x.toNat + 1 := by
    have hhalves := congrArg toNat hword
    rw [UInt32.toNat_shiftRight, UInt32.toNat_shiftRight] at hhalves
    change y.toNat >>> 1 = x.toNat >>> 1 at hhalves
    rw [Nat.shiftRight_one, Nat.shiftRight_one] at hhalves
    omega
  have hbus : x &&& map.addressMask = x := by
    refine h.bus y x ?_
    rw [honBus, le_iff_toNat_le]
    omega
  have hinside := List.find?_some hchunk
  rw [honBus, Chunk.contains, Bool.and_eq_true, decide_eq_true_eq, decide_eq_true_eq,
    le_iff_toNat_le, lt_iff_toNat_lt] at hinside
  have hchunk' : map.chunkAt? x = some chunk := by
    refine find?_contains h.apart (List.mem_of_find?_eq_some hchunk) ?_
    rw [hbus, Chunk.contains, Bool.and_eq_true, decide_eq_true_eq, decide_eq_true_eq,
      le_iff_toNat_le, lt_iff_toNat_lt]
    omega
  refine ⟨hchunk', UInt32.toNat_inj.mp ?_⟩
  have hoffset := (toNat_canonical hchunk).1
  rw [hhome, honBus, Chunk.offset, UInt32.toNat_and, UInt32.toNat_sub_of_le _ _
    (le_iff_toNat_le.mpr hinside.1)] at hoffset
  rw [(toNat_canonical hchunk').1, hbus, Chunk.offset, UInt32.toNat_and, UInt32.toNat_sub_of_le _ _
    (le_iff_toNat_le.mpr (by omega))]
  -- the distance of the even byte has the bits of the other but for the lowest
  have hdistance : x.toNat - chunk.start.toNat =
      (y.toNat - chunk.start.toNat) &&& chunk.mask.toNat &&& (2 ^ 32 - 2) := by
    have heven := toNat_clear_lowest (y - chunk.start)
    rw [UInt32.toNat_and, UInt32.toNat_sub_of_le _ _
      (le_iff_toNat_le.mpr hinside.1)] at heven
    change _ &&& (2 ^ 32 - 2) = _ at heven
    rw [show (y.toNat - chunk.start.toNat) &&& chunk.mask.toNat =
      y.toNat - chunk.start.toNat by omega, heven]
    omega
  have hkept : (x.toNat - chunk.start.toNat) &&& chunk.mask.toNat = x.toNat - chunk.start.toNat := by
    rw [hdistance, Nat.and_assoc, Nat.and_comm (2 ^ 32 - 2), ← Nat.and_assoc,
      Nat.and_assoc _ chunk.mask.toNat chunk.mask.toNat, Nat.and_self]
  omega

theorem Sound.index_inj (h : map.Sound) {i j : Nat} (hi : i < map.chunks.size)
    (hj : j < map.chunks.size) (heq : map.chunks[i].start = map.chunks[j].start) : i = j := by
  have hapart (k l : Nat) (hk : k < map.chunks.size) (hl : l < map.chunks.size) (hkl : k < l) :
      map.chunks[k].start < map.chunks[l].start :=
    UInt32.lt_of_lt_of_le (h.filled _ (Array.getElem_mem_toList hk))
      (List.pairwise_iff_getElem.mp h.apart k l hk hl hkl)
  rcases Nat.lt_trichotomy i j with hlt | hsame | hlt
  · exact absurd heq (UInt32.ne_of_lt (hapart i j hi hj hlt))
  · exact hsame
  · exact absurd heq.symm (UInt32.ne_of_lt (hapart j i hj hi hlt))

theorem Sound.selectBank_eq (h : map.Sound)
    (hbank : map.selectBank start bank = .ok (some (first, stop), map')) :
    ∃ chunk ∈ map.chunks, ∃ banks active, chunk.start = start ∧
      chunk.backing = .banked banks active ∧ first = start ∧
      stop = (min (start.toNat + chunk.period) chunk.stop.toNat).toUInt32 ∧
      map' = { map with
        chunks := map.chunks.map fun c =>
          if c.start = start then { c with backing := .banked banks bank } else c } := by
  obtain ⟨i, banks, active, hstart, hbacking, hfirst, hstop, rfl⟩ := selectBank_ok hbank
  refine ⟨map.chunk i, Array.getElem_mem i.isLt, banks, active, hstart, hbacking, hfirst, hstop, ?_⟩
  rw [modifyChunk]
  congr 1
  refine Array.ext_getElem? fun j => ?_
  rw [Array.getElem?_modify, Array.getElem?_map]
  split
  · rename_i hij
    rw [← hij, Array.getElem?_eq_getElem i.isLt, Option.map_some, Option.map_some]
    exact congrArg some (if_pos hstart).symm
  · rename_i hij
    cases hj : map.chunks[j]? with
    | none => rfl
    | some c =>
      obtain ⟨hlt, rfl⟩ := Array.getElem?_eq_some_iff.mp hj
      refine congrArg some (if_neg fun heq => hij ?_).symm
      exact h.index_inj i.isLt hlt (hstart.trans heq.symm)

theorem activeBank?_of_selectBank (h : map.selectBank start bank = .ok (none, map')) :
    map.activeBank? start = some bank := by
  unfold selectBank at h
  unfold activeBank?
  cases hfind : map.findStart? start with
  | none =>
    rw [hfind] at h
    cases h
  | some i =>
    rw [hfind] at h
    dsimp only at h ⊢
    cases hbacking : map.chunks[i].backing with
    | buffer data =>
      rw [hbacking] at h
      cases h
    | device hardware =>
      rw [hbacking] at h
      cases h
    | banked banks active =>
      rw [hbacking] at h
      dsimp only at h ⊢
      split at h
      · cases h
      · split at h
        · rename_i heq
          rw [heq]
        · cases (Prod.mk.inj (Except.ok.inj h)).1

theorem selectBank_of_activeBank? (h : map.activeBank? start = some bank) :
    (∃ e, map.selectBank start bank = .error e) ∨
      map.selectBank start bank = .ok (none, map) := by
  unfold activeBank? at h
  unfold selectBank
  cases hfind : map.findStart? start with
  | none => exact .inl ⟨_, rfl⟩
  | some i =>
    rw [hfind] at h
    dsimp only at h ⊢
    cases hbacking : map.chunks[i].backing with
    | buffer data => exact .inl ⟨_, rfl⟩
    | device hardware => exact .inl ⟨_, rfl⟩
    | banked banks active =>
      rw [hbacking] at h
      obtain rfl : active = bank := Option.some.inj h
      dsimp only
      rw [if_pos rfl]
      split
      · exact .inl ⟨_, rfl⟩
      · exact .inr rfl

end MemoryMap

/-- Of a range that gets another bank, the entries of all its instructions are redirected. -/
theorem Sole.redirected_bank {view : GuestView} {P : Pair → Prop} {s : CodeStore}
    (h : Sole config map view P s) (hmarked : Marked config map P s)
    (hlow : 1 ≤ config.trackingShift.toNat) (hhigh : config.trackingShift.toNat ≤ 16)
    (hbus : map.addressMask = 0xFFFFFF) {p : Pair} (hp : P p) {inst : Instruction}
    (hunit : p.unit = .instruction inst) (hlookup : s.lookup x = some p.left.toUInt32)
    (hbank : view.memory.selectBank start bank = .ok (some (first, stop), memory)) {chunk : Chunk}
    (hchunk : chunk ∈ view.memory.chunks) (hstart : chunk.start = start) (heven : start &&& 1 = 0)
    (hcode : chunk.isExecutable = true) (hinside : chunk.contains inst.address = true) :
    (s.redirectRange config memory.canonical first stop).entryKind p.left.toUInt32 =
      .redirected := by
  have hfixed := h.fixed
  have hsound := hfixed.sound
  obtain ⟨i, banks, active, hstart', hbacking, rfl, hstop, -⟩ := selectBank_ok hbank
  obtain rfl : chunk = view.memory.chunk i :=
    hsound.start_inj (Array.mem_toList_iff.mpr hchunk) (Array.getElem_mem_toList i.isLt)
      (hstart.trans hstart'.symm)
  have hhome : view.memory.canonical inst.address = inst.address := by
    have hcanonical := hmarked.canonical p hp
    rw [hunit] at hcanonical
    exact (hfixed.shape.canonical _).trans hcanonical
  have honBus : inst.address &&& view.memory.addressMask = inst.address := by
    rw [← hhome]
    exact hsound.canonical_onBus inst.address
  have hchunkAt : view.memory.chunkAt? inst.address = some (view.memory.chunk i) := by
    rw [← honBus] at hinside
    exact find?_contains hsound.apart (Array.mem_toList_iff.mpr hchunk) hinside
  -- the entry is that of the word in which the instruction starts
  obtain ⟨q, hq, hplace, hword, hx⟩ := h.lookup hlookup
  obtain rfl : p = q := h.left_inj hp hq hplace
  rw [hunit] at hword
  change inst.address >>> 1 = x >>> 1 at hword
  obtain ⟨hchunkAt', hhome'⟩ := hsound.canonical_word hchunkAt (hstart ▸ heven) hhome hx hword
  have honBus' : x &&& view.memory.addressMask = x := by
    rw [← hhome']
    exact hsound.canonical_onBus x
  have hregion : s.isMarked config x = true := by
    rw [CodeStore.isMarked, ← CodeStore.regionOf_word hlow hhigh hword]
    refine Std.HashSet.contains_iff_mem.mpr (hmarked.regions p hp inst hunit ?_ _ ?_)
    · rw [← hfixed.shape.isTracked, isTracked_eq, hchunkAt, Option.map_some,
        Option.getD_some, Chunk.isTracked, hcode, hbacking, Backing.isBanked, Bool.or_true]
      rfl
    · exact List.mem_map.mpr ⟨0, List.mem_range.mpr (Nat.succ_pos _), UInt32.add_zero _⟩
  obtain ⟨hleast, hmost⟩ := toNat_lt_period hchunkAt' hhome' honBus'
  have hend := (view.memory.chunk i).stop.toNat_lt
  have hbound : x.toNat < (view.memory.chunk i).stop.toNat := by
    have hcontains := List.find?_some hchunkAt'
    rw [honBus', Chunk.contains, Bool.and_eq_true, decide_eq_true_eq, decide_eq_true_eq] at hcontains
    exact lt_iff_toNat_lt.mp hcontains.2
  have hlines : x.toNat ≤ 2 ^ 24 - 1 := by
    rw [← honBus', hfixed.shape.bus, hbus, UInt32.toNat_and]
    exact Nat.and_le_right
  rw [hstart] at hleast hmost
  refine h.redirected_range hp hlookup ?_ hregion hleast ?_ (by omega)
  · rw [(view.memory.sameShape_selectBank hbank).canonical, hhome']
  · rw [hstop, Nat.toUInt32, toNat_ofNat', Nat.mod_eq_of_lt (by omega)]
    omega

namespace Cpu

variable {cpu switched : Cpu}

theorem selectBank_ok (h : cpu.selectBank start bank = .ok switched)
    (hother : cpu.memory.activeBank? start ≠ some bank) :
    ∃ first stop memory, cpu.memory.selectBank start bank = .ok (some (first, stop), memory) ∧
      switched.memory = memory ∧
      switched.store = cpu.store.redirectRange cpu.config memory.canonical first stop := by
  unfold selectBank at h
  cases hbank : cpu.memory.selectBank start bank with
  | error e =>
    rw [hbank] at h
    cases h
  | ok answer =>
    rw [hbank] at h
    obtain ⟨changed, memory⟩ := answer
    cases changed with
    | none => exact absurd (activeBank?_of_selectBank hbank) hother
    | some range =>
      cases h
      exact ⟨range.1, range.2, memory, rfl, rfl, rfl⟩

theorem apply_selectBank (h : (∃ e, cpu.selectBank start bank = .error e) ∨
    cpu.memory.activeBank? start = some bank) :
    (Operation.selectBank start bank).apply cpu = cpu := by
  have hrefused (hrefused : ∃ e, cpu.selectBank start bank = .error e) :
      (Operation.selectBank start bank).apply cpu = cpu := by
    obtain ⟨e, heq⟩ := hrefused
    rw [Operation.apply, heq]
    rfl
  rcases h with herror | hactive
  · exact hrefused herror
  · rcases selectBank_of_activeBank? hactive with ⟨e, heq⟩ | heq
    · exact hrefused ⟨.badMemoryMap e, by rw [selectBank, heq]⟩
    · rw [Operation.apply, selectBank, heq]
      rfl

end Cpu

theorem Cpu.IsNew.kept {cpu : Cpu} (hnew : cpu.IsNew config memory) (heven : memory.KeepsEven)
    {m : Moment} {past : List Moment} (hhistory : Moment.History (fun _ => True) (.idle cpu) m past)
    (hfits : m.cpu.Fits) :
    ∃ P, Sole config memory m.cpu.view P m.cpu.store ∧ Kept config memory P m.cpu.store := by
  obtain ⟨P, hknown⟩ := hnew.chronicle (Steady.kept heven hnew.sound).upkeep
    (Kept.initial config memory) (fun _ _ => trivial) hhistory hfits
  exact ⟨P, hknown.tracks.sole⟩

/-- Mapping another bank drops all the code made from the old one. On the models with 24 address
lines, a switch changes what is mapped into its range and nothing else in memory; if the range is code
memory that starts at an even address, then the entries of all its instructions are redirected, and
where all ranges start at even addresses these are all the entries found in it. A switch that is
refused, or to the bank that is mapped, changes nothing. -/
theorem bank_switch_redirects {cpu : Cpu} {config : Config} {memory : MemoryMap}
    (hnew : cpu.IsNew config memory) (hmodel : config.model ≠ .m68020) {m : Moment}
    {past : List Moment} (hhistory : Moment.History (fun _ => True) (.idle cpu) m past)
    (hfits : m.cpu.Fits) (start : UInt32) (bank : Nat) :
    (∀ switched, m.cpu.selectBank start bank = .ok switched →
      m.cpu.memory.activeBank? start ≠ some bank →
      ∃ chunk ∈ m.cpu.memory.chunks, ∃ banks active, chunk.start = start ∧
        chunk.backing = .banked banks active ∧
        switched.memory = { m.cpu.memory with
          chunks := m.cpu.memory.chunks.map fun c =>
            if c.start = start then { c with backing := .banked banks bank } else c } ∧
        (∀ x, switched.store.lookup x = m.cpu.store.lookup x) ∧
        (start &&& 1 = 0 → chunk.isExecutable = true →
          (∀ x n inst, switched.store.lookup x = some n → MadeFrom past n inst →
            chunk.contains inst.address = true → switched.store.entryKind n = .redirected) ∧
          ((∀ c ∈ memory.chunks, c.start &&& 1 = 0) → ∀ x n, switched.store.lookup x = some n →
            chunk.contains x = true → switched.store.entryKind n = .redirected))) ∧
      ((∃ e, m.cpu.selectBank start bank = .error e) ∨
        m.cpu.memory.activeBank? start = some bank →
        (Operation.selectBank start bank).apply m.cpu = m.cpu) := by
  obtain ⟨P, hsole, hmarked, hunits, -⟩ := hnew.marked hhistory hfits
  obtain ⟨hlow, hhigh⟩ := hnew.shift
  have hbus : memory.addressMask = 0xFFFFFF := by
    rw [hnew.eq_fresh.1, Config.addressMask]
    cases hm : config.model <;> first | rfl | exact absurd hm hmodel
  refine ⟨fun switched hswitch hother => ?_, Cpu.apply_selectBank⟩
  obtain ⟨first, stop, mapped, hbank, hmemory, hstore⟩ := Cpu.selectBank_ok hswitch hother
  have hfixed := hsole.fixed
  rw [show m.cpu.config = config from hfixed.config] at hstore
  obtain ⟨chunk, hchunk, banks, active, hstart, hbacking, rfl, hstop, hmap⟩ :=
    (hfixed.sound : m.cpu.memory.Sound).selectBank_eq hbank
  have hlookup (x : UInt32) : switched.store.lookup x = m.cpu.store.lookup x := by
    obtain ⟨pairs, -, hredirects⟩ := hsole.redirects_range mapped.canonical first stop
    rw [hstore]
    exact hredirects.lookup x
  refine ⟨chunk, hchunk, banks, active, hstart, hbacking, hmemory.trans hmap, hlookup,
    fun heven hcode => ?_⟩
  constructor
  · intro x n inst hentry hmade hinside
    obtain ⟨p, hp, rfl, hunit⟩ := hunits n inst hmade
    rw [hlookup] at hentry
    rw [hstore]
    exact hsole.redirected_bank hmarked hlow hhigh hbus hp hunit hentry hbank hchunk hstart heven
      hcode hinside
  · intro hstarts x n hentry hinside
    rw [hlookup] at hentry
    obtain ⟨P', hsole', hkept⟩ :=
      hnew.kept (keepsEven_of_starts hstarts) hhistory hfits
    obtain ⟨p, hp, rfl, hword, hx⟩ := hsole'.lookup hentry
    have hhome := hkept.tidy.home p hp
    obtain rfl : p.unit.address = x := eq_of_word hhome.1 hx hword
    have hexecutable : memory.isExecutable p.unit.address = true := by
      have honBus := hnew.sound.canonical_onBus p.unit.address
      have hshape : SameShape memory m.cpu.memory := hfixed.shape
      rw [hhome.2, ← hshape.bus] at honBus
      have hchunkAt : m.cpu.memory.chunkAt? p.unit.address = some chunk := by
        rw [← honBus] at hinside
        exact find?_contains (hfixed.sound : m.cpu.memory.Sound).apart
          (Array.mem_toList_iff.mpr hchunk) hinside
      rw [← hshape.isExecutable, isExecutable_eq, hchunkAt]
      exact hcode
    obtain ⟨inst, hunit⟩ := hkept.units p hp hexecutable
    rw [hunit] at hinside
    rw [hstore]
    exact hsole'.redirected_bank hkept.marked hlow hhigh hbus hp hunit hentry hbank hchunk hstart
      heven hcode hinside

/-- The invalid instruction of the first bank is dropped with it, in a range that repeats. -/
theorem bank_switch_redirects_twofold :
    ∃ (s : Session) (switched : Cpu),
      (Cpu.fresh .default (.twofold 0xFFFFFF 31)).begin 100 = .next s ∧
        s.cpu.store.lookup 0 = some 20 ∧ s.cpu.selectBank 0 1 = .ok switched ∧
        switched.store.entryKind 20 = .redirected ∧
        (Operation.selectBank 0 0).apply s.cpu = s.cpu := by
  obtain ⟨s, hbegin, hview, -, hfits, hhistory, hlookup, hmade⟩ :=
    Cpu.history_invalid .default (.twofold 0xFFFFFF 31) (by decide +kernel)
  have hmemory : s.cpu.memory = .twofold 0xFFFFFF 31 := congrArg GuestView.memory hview
  have hmodel : Config.default.model ≠ .m68020 := by
    decide
  have hnew : (Cpu.fresh .default (.twofold 0xFFFFFF 31)).IsNew .default (.twofold 0xFFFFFF 31) :=
    ⟨⟨_, _, build_twofold _ 31⟩, rfl⟩
  have hfound : (twofold 0xFFFFFF 31).findStart? 0 = some ⟨0, by decide⟩ := by
    simp [findStart?, twofold, Chunk.twofold, Chunk.filled]
  have hactive : s.cpu.memory.activeBank? 0 = some 0 := by
    rw [hmemory, activeBank?, hfound]
    rfl
  obtain ⟨switched, hswitch⟩ : ∃ switched, s.cpu.selectBank 0 1 = .ok switched := by
    rw [Cpu.selectBank, hmemory, selectBank, hfound]
    exact ⟨_, rfl⟩
  obtain ⟨hchanges, -⟩ := bank_switch_redirects hnew hmodel (hhistory _) hfits 0 1
  obtain ⟨-, hsame⟩ := bank_switch_redirects hnew hmodel (hhistory _) hfits 0 0
  obtain ⟨chunk, hchunk, banks, active, -, -, -, hkept, hredirects⟩ :=
    hchanges switched hswitch (by rw [show (Moment.running s).cpu = s.cpu from rfl, hactive]; decide)
  obtain rfl : chunk = .twofold 31 := by
    rw [show (Moment.running s).cpu = s.cpu from rfl, hmemory] at hchunk
    exact List.mem_singleton.mp (Array.mem_toList_iff.mpr hchunk)
  refine ⟨s, switched, hbegin, hlookup, hswitch, ?_, hsame (.inr hactive)⟩
  exact (hredirects rfl rfl).1 0 20 _ ((hkept 0).trans hlookup) hmade rfl

end Dynarec68k
