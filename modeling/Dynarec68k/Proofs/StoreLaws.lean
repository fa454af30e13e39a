import Dynarec68k.Proofs.AcceptedMaps
import Dynarec68k.Proofs.AddressErrors

namespace Dynarec68k

open MemoryMap

namespace ChunkLayout

/-- Even bounds, both bytes of every word, and a buffer that covers the range. -/
structure IsPlain (layout : ChunkLayout) : Prop where
  start : layout.shape.start &&& 1 = 0
  stop : layout.shape.stop &&& 1 = 0
  mask : layout.shape.mask &&& 1 = 1
  lanes : layout.shape.access.laneOnly = false
  covered : min (layout.shape.stop.toNat - layout.shape.start.toNat) (layout.shape.mask.toNat + 1) ≤
    layout.sizes[layout.mapped]?.getD 0

end ChunkLayout

theorem Backing.get_set {backing : Backing} {i j : Nat} (hi : i < backing.room)
    (hj : j < backing.room) (value : UInt8) :
    (backing.set i value).get j = if j = i then value else backing.get j := by
  obtain ⟨old, hold⟩ := byte?_of_lt_room hj
  refine get_of_byte? ?_
  rw [mapped_set, byte?_set backing value hi, get_of_byte? hold, hold]
  split
  · rename_i h
    rw [if_pos h.2]
  · rename_i h
    rw [if_neg fun hij => h ⟨rfl, hij⟩]

namespace Chunk

variable {chunk : Chunk} {x y : UInt32}

theorem index?_of_plain (h : chunk.layout.IsPlain) (x : UInt32) :
    chunk.index? x = some (chunk.offset x).toNat := by
  have hlanes : chunk.access.laneOnly = false := h.lanes
  rw [index?, hlanes]
  rfl

theorem offset_lt_room (h : chunk.layout.IsPlain) (hx : chunk.contains x = true) :
    (chunk.offset x).toNat < chunk.backing.room := by
  have hlanes : chunk.access.laneOnly = false := h.lanes
  have hcovered := h.covered
  rw [chunk.room_layout] at hcovered
  refine Nat.lt_of_lt_of_le (index?_lt hx (index?_of_plain h x)) ?_
  rw [needed, hlanes]
  exact hcovered

theorem get_set (h : chunk.layout.IsPlain) (hx : chunk.contains x = true)
    (hy : chunk.contains y = true) (value : UInt8) :
    (chunk.set x value).get y =
      if chunk.offset y = chunk.offset x then value else chunk.get y := by
  rw [get, get, index?_set, index?_of_plain h y, backing_set (index?_of_plain h x)]
  dsimp only
  rw [Backing.get_set (offset_lt_room h hx) (offset_lt_room h hy)]
  simp only [UInt32.toNat_inj]

theorem contains_succ (h : chunk.layout.IsPlain) (hx : x &&& 1 = 0) :
    chunk.contains (x + 1) = chunk.contains x := by
  have hstart := and_one_eq_zero.mp h.start
  have hstop := and_one_eq_zero.mp h.stop
  have hsucc := toNat_succ_of_even hx
  rw [and_one_eq_zero] at hx
  apply Bool.eq_iff_iff.mpr
  rw [contains_iff, contains_iff]
  simp only [UInt32.le_iff_toNat_le, UInt32.lt_iff_toNat_lt, hsucc]
  change chunk.start.toNat % 2 = 0 at hstart
  change chunk.stop.toNat % 2 = 0 at hstop
  omega

end Chunk

namespace MemoryMap

/-- A map of plain memory behind a bus that has its lowest line. -/
structure IsStore (map : MemoryMap) : Prop where
  sound : map.Sound
  lowest : map.addressMask &&& 1 = 1
  plain : ∀ layout ∈ map.chunks.toList.map Chunk.layout, layout.IsPlain

theorem IsStore.congr {m m' : MemoryMap} (h : m.IsStore) (hsame : SameLayout m m') :
    m'.IsStore where
  sound := by
    have hshapes := congrArg (List.map ChunkLayout.shape) hsame.chunks
    rw [List.map_map, List.map_map] at hshapes
    exact h.sound.congr ⟨hsame.bus, hshapes⟩
  lowest := hsame.bus ▸ h.lowest
  plain := hsame.chunks ▸ h.plain

variable {map : MemoryMap} {x : UInt32}

theorem write8_found {i : Fin map.chunks.size} (hi : map.find? x = some i)
    (hwrite : (map.chunk i).access.write = true)
    (hplain : (map.chunk i).backing.isDevice = false) (value : UInt8) :
    map.write8 x value = (.proceed, map.modifyChunk i fun chunk =>
      chunk.set (x &&& map.addressMask) value) := by
  rw [write8]
  simp only [find?_onBus, hi]
  change (if (map.chunk i).access.write = true then _ else _) = _
  rw [if_pos hwrite]
  split
  · rename_i hdevice
    change (map.chunk i).backing = _ at hdevice
    rw [hdevice] at hplain
    cases hplain
  · rfl

theorem write8_lost (h : (map.accessAt x).write = false) (value : UInt8) :
    map.write8 x value = (.proceed, map) := by
  rw [accessAt] at h
  rw [write8]
  split at h <;> simp_all

theorem read8_lost (h : (map.accessAt x).read = false) : map.read8 x = (0xFF, map) := by
  rw [accessAt] at h
  rw [read8]
  split at h <;> simp_all

theorem onBus_even (x bus : UInt32) :
    x &&& bus &&& 0xFFFFFFFE = x &&& 0xFFFFFFFE &&& bus := by
  rw [UInt32.and_assoc, UInt32.and_comm bus, ← UInt32.and_assoc]

theorem write16_lost (h : (map.accessAt (x &&& 0xFFFFFFFE)).write = false) (value : UInt16) :
    map.write16 x value = (.proceed, map) := by
  rw [accessAt] at h
  rw [write16, onBus_even]
  split at h <;> simp_all

theorem read16_lost (h : (map.accessAt (x &&& 0xFFFFFFFE)).read = false) :
    map.read16 x = (0xFFFF, map) := by
  rw [accessAt] at h
  rw [read16, onBus_even]
  split at h <;> simp_all

theorem found_of_access (h : map.accessAt x ≠ Access.none) :
    ∃ i, map.find? x = some i ∧ map.accessAt x = (map.chunk i).access := by
  rw [accessAt] at h ⊢
  split at h
  · rename_i i hi
    exact ⟨i, hi, rfl⟩
  · exact absurd rfl h

namespace IsStore

variable (h : map.IsStore) {y : UInt32}
include h

theorem chunk (i : Fin map.chunks.size) : (map.chunk i).layout.IsPlain :=
  h.plain _ (List.mem_map_of_mem (Array.getElem_mem_toList i.isLt))

theorem device (i : Fin map.chunks.size) : (map.chunk i).backing.isDevice = false := by
  have hfilled := h.sound.filled (map.chunk i) (Array.getElem_mem_toList i.isLt)
  refine Backing.plain_of_room (Chunk.offset_lt_room (h.chunk i) (x := (map.chunk i).start) ?_)
  exact Chunk.contains_iff.mpr ⟨UInt32.le_refl _, hfilled⟩

theorem find?_canonical (x : UInt32) : map.find? (map.canonical x) = map.find? x := by
  have hchunk := h.sound.chunkAt?_canonical x
  rw [chunkAt?_eq, chunkAt?_eq] at hchunk
  cases hx : map.find? x with
  | none =>
    rw [hx, Option.map_none, Option.map_eq_none_iff] at hchunk
    exact hchunk
  | some i =>
    rw [hx, Option.map_some, Option.map_eq_some_iff] at hchunk
    obtain ⟨j, hj, heq⟩ := hchunk
    have hinside := (find?_eq_some h.sound.apart).mp hx
    rw [← heq, ← find?_eq_some h.sound.apart, hx] at hinside
    rw [hj, hinside]

theorem canonical_eq_iff {i j : Fin map.chunks.size} (hi : map.find? x = some i)
    (hj : map.find? y = some j) :
    map.canonical y = map.canonical x ↔ j = i ∧
      (map.chunk i).offset (y &&& map.addressMask) =
        (map.chunk i).offset (x &&& map.addressMask) := by
  have hcanonical {z : UInt32} {k : Fin map.chunks.size} (hk : map.find? z = some k) :
      map.canonical z = (map.chunk k).start + (map.chunk k).offset (z &&& map.addressMask) := by
    rw [canonical_eq, chunkAt?_eq, hk]
    rfl
  constructor
  · intro heq
    obtain rfl : j = i := by
      rw [← h.find?_canonical, ← heq, h.find?_canonical, hj] at hi
      exact Option.some.inj hi
    rw [hcanonical hi, hcanonical hj] at heq
    exact ⟨rfl, (UInt32.add_right_inj _).mp heq⟩
  · rintro ⟨rfl, heq⟩
    rw [hcanonical hi, hcanonical hj, heq]

theorem found_stored (i : Fin map.chunks.size) (x : UInt32) (value : UInt8)
    {j : Fin map.chunks.size} (hj : map.find? y = some j) :
    ∃ j', (map.modifyChunk i fun chunk => chunk.set x value).find? y = some j' ∧
      j'.val = j.val ∧
      MemoryMap.chunk _ j' = (if i = j then (map.chunk j).set x value else map.chunk j) ∧
      (MemoryMap.chunk _ j').access = (map.chunk j).access ∧
      (MemoryMap.chunk _ j').backing.isDevice = false := by
  have hbounds (chunk : Chunk) :
      ((chunk.set x value).start, (chunk.set x value).stop) = (chunk.start, chunk.stop) :=
    Prod.ext (chunk.bounds_set x value).1 (chunk.bounds_set x value).2
  have hchunk := chunk_modifyChunk (f := fun chunk => chunk.set x value) i j
  have hshape : (if i.val = j.val then (map.chunk j).set x value else map.chunk j).shape =
      (map.chunk j).shape := by
    split
    · exact (map.chunk j).shape_set x value
    · rfl
  refine ⟨_, find?_modifyChunk h.sound.apart hbounds i hj, rfl, ?_⟩
  rw [hchunk]
  refine ⟨?_, congrArg ChunkShape.access hshape,
    (congrArg ChunkShape.device hshape).trans (h.device j)⟩
  simp only [Fin.ext_iff]

theorem read8_write8 (hy : (map.accessAt y).read = true) (value : UInt8) :
    ((map.write8 x value).2.read8 y).1 =
      if (map.accessAt x).write = true ∧ map.canonical y = map.canonical x then value
      else (map.read8 y).1 := by
  cases hwrite : (map.accessAt x).write with
  | false => rw [write8_lost hwrite, if_neg fun hboth => Bool.false_ne_true hboth.1]
  | true =>
    obtain ⟨i, hi, haccess⟩ : ∃ i, map.find? x = some i ∧ map.accessAt x = (map.chunk i).access :=
      found_of_access fun hnone => by simp [hnone, Access.none] at hwrite
    obtain ⟨j, hj, haccess'⟩ : ∃ j, map.find? y = some j ∧ map.accessAt y = (map.chunk j).access :=
      found_of_access fun hnone => by simp [hnone, Access.none] at hy
    rw [haccess] at hwrite
    rw [haccess'] at hy
    obtain ⟨j', hfind, -, hchunk, hread, hdevice⟩ :=
      h.found_stored i (x &&& map.addressMask) value hj
    rw [write8_found hi hwrite (h.device i), read8_found hj hy (h.device j),
      read8_found hfind (hread ▸ hy) hdevice, hchunk]
    simp only [h.canonical_eq_iff hi hj, true_and]
    split
    · rename_i hij
      subst hij
      simp only [true_and]
      exact Chunk.get_set (h.chunk i) ((find?_eq_some h.sound.apart).mp hi)
        ((find?_eq_some h.sound.apart).mp hj) value
    · rename_i hij
      rw [if_neg fun hboth => hij hboth.1.symm]
      rfl

theorem find?_succ (hx : x &&& 1 = 0) : map.find? (x + 1) = map.find? x := by
  ext i
  rw [find?_eq_some h.sound.apart, find?_eq_some h.sound.apart, succ_and hx h.lowest,
    Chunk.contains_succ (h.chunk i) (and_one_of_and hx _)]

theorem accessAt_succ (hx : x &&& 1 = 0) : map.accessAt (x + 1) = map.accessAt x := by
  rw [accessAt, h.find?_succ hx, ← accessAt]

theorem read16_eq (x : UInt32) :
    map.read16 x =
      ((map.read8 (x &&& 0xFFFFFFFE)).1.toUInt16 <<< 8
        ||| (map.read8 ((x &&& 0xFFFFFFFE) + 1)).1.toUInt16, map) := by
  have heven := even_clear_lowest x
  cases hread : (map.accessAt (x &&& 0xFFFFFFFE)).read with
  | false =>
    rw [read16_lost hread, read8_lost hread, read8_lost ((h.accessAt_succ heven).symm ▸ hread)]
    exact congrArg (Prod.mk · map) (by decide : (0xFFFF : UInt16) =
      (0xFF : UInt8).toUInt16 <<< 8 ||| (0xFF : UInt8).toUInt16)
  | true =>
    obtain ⟨i, hi, haccess⟩ : ∃ i, map.find? (x &&& 0xFFFFFFFE) = some i ∧ _ :=
      found_of_access fun hnone => by simp [hnone, Access.none] at hread
    rw [haccess] at hread
    have hword : map.find? (x &&& map.addressMask &&& 0xFFFFFFFE) = some i := by
      rw [onBus_even, find?_onBus, hi]
    rw [read16_found hword hread (h.device i), read8_found hi hread (h.device i),
      read8_found ((h.find?_succ heven).trans hi) hread (h.device i), onBus_even,
      succ_and heven h.lowest]

theorem write16_eq (x : UInt32) (value : UInt16) :
    map.write16 x value =
      (map.write8 (x &&& 0xFFFFFFFE) (value >>> 8).toUInt8).2.write8 ((x &&& 0xFFFFFFFE) + 1)
        value.toUInt8 := by
  have heven := even_clear_lowest x
  cases hwrite : (map.accessAt (x &&& 0xFFFFFFFE)).write with
  | false =>
    rw [write16_lost hwrite, write8_lost hwrite, write8_lost ((h.accessAt_succ heven).symm ▸ hwrite)]
  | true =>
    obtain ⟨i, hi, haccess⟩ : ∃ i, map.find? (x &&& 0xFFFFFFFE) = some i ∧ _ :=
      found_of_access fun hnone => by simp [hnone, Access.none] at hwrite
    rw [haccess] at hwrite
    have hword : map.find? (x &&& map.addressMask &&& 0xFFFFFFFE) = some i := by
      rw [onBus_even, find?_onBus, hi]
    rw [write16_found hword hwrite (h.device i), write8_found hi hwrite (h.device i), onBus_even]
    obtain ⟨j, hfind, hij, hchunk, haccess', hdevice⟩ := h.found_stored i
      (x &&& 0xFFFFFFFE &&& map.addressMask) (value >>> 8).toUInt8 ((h.find?_succ heven).trans hi)
    rw [write8_found hfind (haccess' ▸ hwrite) hdevice, hij]
    refine congrArg (Prod.mk _) ?_
    simp only [modifyChunk, succ_and heven h.lowest, mk.injEq, and_true]
    refine Array.ext_getElem? fun k => ?_
    simp only [Array.getElem?_modify]
    split
    · rw [Option.map_map]
      rfl
    · rfl

end IsStore

theorem sameLayout_write8 (map : MemoryMap) (x : UInt32) (value : UInt8) :
    SameLayout map (map.write8 x value).2 :=
  map.after_write8 (.refl map) (fun i _ hdevice device' event =>
      (map.sameBytes_setDevice i hdevice device' event).layout) x value fun _ _ _ =>
    ⟨rfl, map_chunks_modify Chunk.layout _ _ fun chunk => chunk.layout_set _ _⟩

theorem isStore_build {chunks : List Chunk} {bus : UInt32} {map : MemoryMap}
    (h : build chunks bus = .ok map) (hbus : bus = 0xFFFFFF ∨ bus = 0xFFFFFFFF)
    (hchunks : ∀ chunk ∈ chunks, chunk.start &&& 1 = 0 ∧ chunk.stop &&& 1 = 0 ∧
      chunk.mask &&& 1 = 1 ∧ chunk.access.laneOnly = false ∧
      ∃ data, chunk.backing.bytes? = some data) : map.IsStore := by
  obtain ⟨model, hmodel⟩ : ∃ model : Model, model.addressMask = bus := by
    rcases hbus with rfl | rfl
    · exact ⟨.m68000, rfl⟩
    · exact ⟨.m68020, rfl⟩
  have hsound : map.Sound := sound_build (hmodel ▸ h)
  have hlowest : bus &&& 1 = 1 := by
    rcases hbus with rfl | rfl
    · decide
    · decide
  obtain ⟨⟨hcovered, -⟩, rfl⟩ := build_ok.mp h
  refine ⟨hsound, hlowest, ?_⟩
  refine List.forall_mem_map.mpr fun chunk hchunk => ?_
  rw [mem_sortChunks] at hchunk
  obtain ⟨hstart, hstop, hmask, hlanes, data, hdata⟩ := hchunks chunk hchunk
  refine ⟨hstart, hstop, hmask, hlanes, ?_⟩
  have hsize := (hcovered chunk hchunk).sizes data (by
    rw [Backing.bytes?_eq] at hdata
    exact List.mem_of_getElem? hdata)
  rw [Chunk.needed, hlanes] at hsize
  rw [Chunk.room_layout, Backing.room, hdata]
  exact hsize

end MemoryMap

/-- Plain memory is a store up to the addresses that stand for one byte, as it is built and whatever
has been written to it since. -/
theorem memory_is_store {chunks : List Chunk} {bus : UInt32} {built map : MemoryMap}
    (hbuild : build chunks bus = .ok built) (hbus : bus = 0xFFFFFF ∨ bus = 0xFFFFFFFF)
    (hchunks : ∀ chunk ∈ chunks, chunk.start &&& 1 = 0 ∧ chunk.stop &&& 1 = 0 ∧
      chunk.mask &&& 1 = 1 ∧ chunk.access.laneOnly = false ∧
      ∃ data, chunk.backing.bytes? = some data)
    (hsame : SameLayout built map) :
    (∀ x, map.canonical (map.canonical x) = map.canonical x ∧
      map.find? (map.canonical x) = map.find? x) ∧
    (∀ x value, SameLayout built (map.write8 x value).2 ∧
      ∀ y, (map.accessAt y).read = true →
        ((map.write8 x value).2.read8 y).1 =
          if (map.accessAt x).write = true ∧ map.canonical y = map.canonical x then value
          else (map.read8 y).1) ∧
    (∀ x value,
      map.write16 x value =
          (map.write8 (x &&& 0xFFFFFFFE) (value >>> 8).toUInt8).2.write8 ((x &&& 0xFFFFFFFE) + 1)
            value.toUInt8 ∧
        map.read16 x =
          ((map.read8 (x &&& 0xFFFFFFFE)).1.toUInt16 <<< 8
            ||| (map.read8 ((x &&& 0xFFFFFFFE) + 1)).1.toUInt16, map)) ∧
    ∀ x value,
      (map.write32 x value).2 =
          ((map.write16 x (value >>> 16).toUInt16).2.write16 (x + 2) value.toUInt16).2 ∧
        (map.write32LowFirst x value).2 =
          ((map.write16 (x + 2) value.toUInt16).2.write16 x (value >>> 16).toUInt16).2 ∧
        map.read32 x = (Word.join (map.read16 x).1 (map.read16 (x + 2)).1, map) := by
  have h := (isStore_build hbuild hbus hchunks).congr hsame
  refine ⟨fun x => ⟨h.sound.canonical_canonical x, h.find?_canonical x⟩, fun x value => ⟨?_, ?_⟩,
    fun x value => ⟨h.write16_eq x value, h.read16_eq x⟩, fun x value => ⟨rfl, rfl, ?_⟩⟩
  · exact hsame.trans (map.sameLayout_write8 x value)
  · exact fun y hy => h.read8_write8 hy value
  · have hread (y : UInt32) : (map.read16 y).2 = map := by rw [h.read16_eq]
    rw [read32]
    simp only [hread]

/-- In memory that repeats every 16 bytes, a byte is read where it was not written. -/
theorem memory_is_store_repeating :
    ((((filled 0xFFFFFF 15).write8 0x11 5).2.read8 0x21)).1 = 5 := by
  have hstore := (memory_is_store (build_filled 0xFFFFFF 15) (.inl rfl)
    (List.forall_mem_singleton.mpr ⟨by decide, by decide, by decide, rfl, _, rfl⟩) (.refl _)).2.1
      0x11 5
  have haccess (x : UInt32) (hx : (Chunk.filled 15).contains (x &&& 0xFFFFFF) = true) :
      (filled 0xFFFFFF 15).accessAt x = ⟨true, true, true, false, false⟩ := by
    have hfound : (filled 0xFFFFFF 15).find? x = some ⟨0, Nat.one_pos⟩ :=
      (find?_eq_some (List.pairwise_singleton _ _)).mpr hx
    rw [accessAt, hfound]
    rfl
  refine (hstore.2 0x21 ?_).trans (if_pos ⟨?_, ?_⟩)
  · rw [haccess 0x21 (by decide)]
  · rw [haccess 0x11 (by decide)]
  · rw [canonical_eq, canonical_eq]
    decide

end Dynarec68k
