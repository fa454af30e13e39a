import Dynarec68k.Proofs.CodeUpkeep
import Dynarec68k.Proofs.FetchedWords

namespace Dynarec68k

open Chunk

variable {backing : Backing} {m m' m'' map map' : MemoryMap} {index n : Nat} {address x : UInt32}
  {data : ByteArray} {vs ws : List UInt16}

/-- A byte of plain memory: the number of its range, of its buffer there, and its position. -/
structure Cell where
  range : Nat
  buffer : Nat
  index : Nat
  deriving DecidableEq, Repr

namespace Backing

/-- Number of the buffer mapped at the moment. -/
def mapped : Backing → Nat
  | .banked _ active => active
  | _ => 0

theorem bytes?_eq (backing : Backing) : backing.bytes? = backing.buffers[backing.mapped]? := by
  cases backing with
  | buffer data => rfl
  | banked banks active => exact Array.getElem?_toList.symm
  | device hardware => rfl

/-- Bytes in the buffer mapped at the moment. -/
def room (backing : Backing) : Nat :=
  (backing.bytes?.map ByteArray.size).getD 0

def byte? (backing : Backing) (buffer index : Nat) : Option UInt8 :=
  backing.buffers[buffer]?.bind fun data => data.data[index]?

theorem byte?_mapped (backing : Backing) (index : Nat) :
    backing.byte? backing.mapped index = backing.bytes?.bind fun data => data.data[index]? := by
  rw [byte?, bytes?_eq]

theorem get_of_byte? {value : UInt8} (h : backing.byte? backing.mapped index = some value) :
    backing.get index = value := by
  rw [byte?_mapped] at h
  obtain ⟨data, hdata, hvalue⟩ := Option.bind_eq_some_iff.mp h
  obtain ⟨hindex, hbyte⟩ := Array.getElem?_eq_some_iff.mp hvalue
  rw [get, hdata]
  exact (dif_pos hindex).trans hbyte

theorem byte?_of_lt_room (h : index < backing.room) :
    ∃ value, backing.byte? backing.mapped index = some value := by
  rw [byte?_mapped]
  rw [room] at h
  cases hdata : backing.bytes? with
  | none =>
    rw [hdata] at h
    exact absurd h (Nat.not_lt_zero _)
  | some data =>
    rw [hdata] at h
    exact ⟨_, Array.getElem?_eq_getElem h⟩

theorem plain_of_room (h : index < backing.room) : backing.isDevice = false := by
  cases backing with
  | device hardware => exact absurd h (Nat.not_lt_zero _)
  | _ => rfl

theorem plain_of_bytes? (h : backing.bytes? = some data) : backing.isDevice = false := by
  cases backing with
  | device hardware => cases h
  | _ => rfl

theorem room_set (backing : Backing) (index : Nat) (value : UInt8) :
    (backing.set index value).room = backing.room := by
  rw [room, room, bytes?_set, Option.map_map]
  exact congrArg (fun f => (Option.map f backing.bytes?).getD 0)
    (funext fun data => setByte_size data index value)

theorem mapped_set (backing : Backing) (index : Nat) (value : UInt8) :
    (backing.set index value).mapped = backing.mapped := by
  cases backing <;> rfl

theorem setByte_self (value : UInt8) (h : index < data.size) :
    (setByte data index value).data[index]? = some value := by
  rw [setByte, dif_pos h]
  exact Array.getElem?_set_self h

theorem buffers_set (backing : Backing) (index : Nat) (value : UInt8) (buffer : Nat) :
    (backing.set index value).buffers[buffer]? =
      if buffer = backing.mapped then
        backing.buffers[buffer]?.map fun data => setByte data index value
      else backing.buffers[buffer]? := by
  cases backing with
  | buffer data => cases buffer <;> rfl
  | banked banks active =>
    simp only [set, buffers, mapped, Array.getElem?_toList, Array.getElem?_modify]
    by_cases h : active = buffer
    · rw [if_pos h, if_pos h.symm]
    · rw [if_neg h, if_neg (Ne.symm h)]
  | device hardware => simp [set, buffers]

theorem sizes_set (backing : Backing) (index : Nat) (value : UInt8) :
    (backing.set index value).buffers.map ByteArray.size =
      backing.buffers.map ByteArray.size := by
  refine List.ext_getElem? fun buffer => ?_
  rw [List.getElem?_map, List.getElem?_map, buffers_set]
  split
  · rw [Option.map_map]
    exact congrArg (Option.map · _) (funext fun data => setByte_size data index value)
  · rfl

theorem byte?_set (backing : Backing) (value : UInt8) (h : index < backing.room) (buffer i : Nat) :
    (backing.set index value).byte? buffer i =
      if buffer = backing.mapped ∧ i = index then some value else backing.byte? buffer i := by
  by_cases hbuffer : buffer = backing.mapped
  · subst hbuffer
    obtain ⟨old, hold⟩ := byte?_of_lt_room h
    rw [byte?_mapped] at hold
    obtain ⟨data, hdata, hbyte⟩ := Option.bind_eq_some_iff.mp hold
    rw [bytes?_eq] at hdata
    obtain ⟨hsize, -⟩ := Array.getElem?_eq_some_iff.mp hbyte
    rw [byte?, byte?, buffers_set, if_pos rfl, hdata]
    by_cases hi : i = index
    · rw [if_pos ⟨rfl, hi⟩, hi]
      exact setByte_self value hsize
    · rw [if_neg fun hboth => hi hboth.2]
      exact setByte_other hi
  · rw [if_neg fun hboth => hbuffer hboth.1, byte?, byte?, buffers_set, if_neg hbuffer]

end Backing

/-- A range without its contents, but with the sizes of its buffers and the one that is mapped. -/
structure ChunkLayout where
  shape : ChunkShape
  sizes : List Nat
  mapped : Nat

namespace ChunkLayout

def contains (layout : ChunkLayout) (address : UInt32) : Bool :=
  decide (layout.shape.start ≤ address) && decide (address < layout.shape.stop)

def index? (layout : ChunkLayout) (address : UInt32) : Option Nat :=
  if layout.shape.access.laneOnly then
    if (address &&& 1 != 0) != layout.shape.access.oddLane then none
    else some (((address - layout.shape.start) &&& layout.shape.mask).toNat / 2)
  else some ((address - layout.shape.start) &&& layout.shape.mask).toNat

/-- The cell that an address comes to, if it can be read and written. -/
def cell? (layout : ChunkLayout) (range : Nat) (address : UInt32) : Option Cell :=
  if layout.shape.access.read && layout.shape.access.write then
    (layout.index? address).bind fun index =>
      if index < layout.sizes[layout.mapped]?.getD 0 then some ⟨range, layout.mapped, index⟩
      else none
  else none

end ChunkLayout

namespace Chunk

def layout (chunk : Chunk) : ChunkLayout where
  shape := chunk.shape
  sizes := chunk.backing.buffers.map ByteArray.size
  mapped := chunk.backing.mapped

theorem room_layout (chunk : Chunk) :
    chunk.layout.sizes[chunk.layout.mapped]?.getD 0 = chunk.backing.room := by
  rw [Backing.room, Backing.bytes?_eq]
  exact congrArg (Option.getD · 0) (List.getElem?_map ..)

theorem cell?_eq_some {chunk : Chunk} {range : Nat} {cell : Cell} :
    chunk.layout.cell? range address = some cell ↔
      chunk.access.read = true ∧ chunk.access.write = true ∧
        ∃ index, chunk.index? address = some index ∧ index < chunk.backing.room ∧
          cell = ⟨range, chunk.backing.mapped, index⟩ := by
  have hindex : chunk.layout.index? address = chunk.index? address := rfl
  rw [ChunkLayout.cell?, room_layout, hindex]
  change (if (chunk.access.read && chunk.access.write) = true then _ else _) = some cell ↔ _
  constructor
  · intro h
    split at h
    · rename_i haccess
      obtain ⟨hread, hwrite⟩ := Bool.and_eq_true_iff.mp haccess
      obtain ⟨index, hfound, hcell⟩ := Option.bind_eq_some_iff.mp h
      split at hcell
      · rename_i hroom
        exact ⟨hread, hwrite, index, hfound, hroom, (Option.some.inj hcell).symm⟩
      · cases hcell
    · cases h
  · rintro ⟨hread, hwrite, index, hfound, hroom, rfl⟩
    rw [hread, hwrite, hfound]
    exact if_pos hroom

theorem backing_set {chunk : Chunk} (h : chunk.index? address = some index) (value : UInt8) :
    (chunk.set address value).backing = chunk.backing.set index value := by
  rw [set, h]

theorem index?_set (chunk : Chunk) (address : UInt32) (value : UInt8) (x : UInt32) :
    (chunk.set address value).index? x = chunk.index? x := by
  unfold set
  split <;> rfl

theorem layout_set (chunk : Chunk) (address : UInt32) (value : UInt8) :
    (chunk.set address value).layout = chunk.layout := by
  have hshape := chunk.shape_set address value
  unfold set at hshape ⊢
  split at hshape
  · rename_i index hindex
    simp only [layout, hshape, Backing.sizes_set, Backing.mapped_set]
  · rfl

end Chunk

namespace MemoryMap

/-- The byte in a cell. -/
def byteIn? (map : MemoryMap) (cell : Cell) : Option UInt8 :=
  map.chunks[cell.range]?.bind fun chunk => chunk.backing.byte? cell.buffer cell.index

/-- The cell of plain memory behind an address, as accesses to its word come to it. -/
def cellAt? (map : MemoryMap) (x : UInt32) : Option Cell :=
  let word := x &&& map.addressMask &&& 0xFFFFFFFE
  (map.find? word).bind fun i => (map.chunk i).layout.cell? i (word + (x &&& 1))

/-- Two maps of the same ranges, with buffers of the same sizes and the same of them mapped. -/
structure SameLayout (m m' : MemoryMap) : Prop where
  bus : m'.addressMask = m.addressMask
  chunks : m'.chunks.toList.map layout = m.chunks.toList.map layout

theorem cellAt?_eq (map : MemoryMap) (x : UInt32) :
    map.cellAt? x =
      let word := x &&& map.addressMask &&& 0xFFFFFFFE
      ((map.chunks.toList.map layout).findIdx?
        fun layout => layout.contains (word &&& map.addressMask)).bind fun i =>
          ((map.chunks.toList.map layout)[i]?).bind fun layout =>
            layout.cell? i (word + (x &&& 1)) := by
  have hfind (y : UInt32) : ((map.chunks.toList.map layout).findIdx?
      fun layout => layout.contains (y &&& map.addressMask)) = (map.find? y).map Fin.val := by
    rw [List.findIdx?_map, ← List.findIdx?_toArray, Array.toArray_toList,
      Array.findIdx?_eq_map_findFinIdx?_val]
    rfl
  simp only [hfind, cellAt?]
  cases map.find? (x &&& map.addressMask &&& 0xFFFFFFFE) with
  | none => rfl
  | some i =>
    simp only [Option.bind_some, Option.map_some, List.getElem?_map, Array.getElem?_toList,
      Array.getElem?_eq_getElem i.isLt]
    rfl

namespace SameLayout

theorem refl (map : MemoryMap) : SameLayout map map :=
  ⟨rfl, rfl⟩

theorem trans (h : SameLayout m m') (h' : SameLayout m' m'') : SameLayout m m'' :=
  ⟨h'.bus.trans h.bus, h'.chunks.trans h.chunks⟩

theorem cellAt? (h : SameLayout m m') (x : UInt32) : m'.cellAt? x = m.cellAt? x := by
  rw [cellAt?_eq, cellAt?_eq, h.bus, h.chunks]

end SameLayout

/-- Two maps of the same layout with the same bytes in their cells. -/
structure SameBytes (m m' : MemoryMap) : Prop where
  layout : SameLayout m m'
  bytes : ∀ cell, m'.byteIn? cell = m.byteIn? cell

namespace SameBytes

theorem refl (map : MemoryMap) : SameBytes map map :=
  ⟨.refl map, fun _ => rfl⟩

theorem trans (h : SameBytes m m') (h' : SameBytes m' m'') : SameBytes m m'' :=
  ⟨h.layout.trans h'.layout, fun cell => (h'.bytes cell).trans (h.bytes cell)⟩

end SameBytes

section

variable (map : MemoryMap)

theorem sameBytes_setDevice (i : Fin map.chunks.size) {device : Device}
    (h : (map.chunk i).backing = .device device) (device' : Device) (event : Event) :
    SameBytes map (map.setDevice i device' event) := by
  refine ⟨⟨rfl, map_chunks_set layout _ i ?_⟩, fun cell => ?_⟩
  · change _ = (map.chunk i).layout
    simp only [layout, shape, h]
    rfl
  · rw [byteIn?, byteIn?, setDevice, Array.getElem?_set]
    split
    · rename_i hrange
      rw [← hrange, Array.getElem?_eq_getElem i.isLt]
      change _ = (map.chunk i).backing.byte? cell.buffer cell.index
      rw [h]
      rfl
    · rfl

theorem sameBytes_read8 (x : UInt32) : SameBytes map (map.read8 x).2 :=
  map.after_read8 (.refl map) map.sameBytes_setDevice x

theorem sameBytes_read16 (x : UInt32) : SameBytes map (map.read16 x).2 :=
  map.after_read16 (.refl map) map.sameBytes_setDevice x

theorem sameBytes_read32 (x : UInt32) : SameBytes map (map.read32 x).2 :=
  (map.sameBytes_read16 x).trans (sameBytes_read16 _ (x + 2))

theorem sameLayout_write16 (x : UInt32) (value : UInt16) :
    SameLayout map (map.write16 x value).2 := by
  refine map.after_write16 (.refl map) (fun i _ hdevice device' event =>
    (map.sameBytes_setDevice i hdevice device' event).layout) x value fun _ _ _ => ?_
  refine ⟨rfl, map_chunks_modify layout _ _ fun chunk => ?_⟩
  rw [layout_set, layout_set]

end

section

variable {i : Fin map.chunks.size}

theorem read16_found (hi : map.find? (x &&& map.addressMask &&& 0xFFFFFFFE) = some i)
    (hread : (map.chunk i).access.read = true) (hplain : (map.chunk i).backing.isDevice = false) :
    map.read16 x =
      (((map.chunk i).get (x &&& map.addressMask &&& 0xFFFFFFFE)).toUInt16 <<< 8
        ||| ((map.chunk i).get ((x &&& map.addressMask &&& 0xFFFFFFFE) + 1)).toUInt16, map) := by
  rw [read16]
  simp only [hi]
  change (if (map.chunk i).access.read = true then _ else _) = _
  rw [if_pos hread]
  split
  · rename_i hdevice
    change (map.chunk i).backing = _ at hdevice
    rw [hdevice] at hplain
    cases hplain
  · rfl

theorem write16_found (hi : map.find? (x &&& map.addressMask &&& 0xFFFFFFFE) = some i)
    (hwrite : (map.chunk i).access.write = true) (hplain : (map.chunk i).backing.isDevice = false)
    (value : UInt16) :
    map.write16 x value = (.proceed, map.modifyChunk i fun chunk =>
      (chunk.set (x &&& map.addressMask &&& 0xFFFFFFFE) (value >>> 8).toUInt8).set
        ((x &&& map.addressMask &&& 0xFFFFFFFE) + 1) value.toUInt8) := by
  rw [write16]
  simp only [hi]
  change (if (map.chunk i).access.write = true then _ else _) = _
  rw [if_pos hwrite]
  split
  · rename_i hdevice
    change (map.chunk i).backing = _ at hdevice
    rw [hdevice] at hplain
    cases hplain
  · rfl

end

/-- The two cells of a word. -/
structure IsWord (map : MemoryMap) (x : UInt32) (high low : Cell) : Prop where
  even : x &&& 1 = 0
  high : map.cellAt? x = some high
  low : map.cellAt? (x + 1) = some low

theorem toNat_succ_of_even (h : x &&& 1 = 0) : (x + 1).toNat = x.toNat + 1 := by
  rw [and_one_eq_zero] at h
  have hlt := x.toNat_lt
  rw [UInt32.toNat_add, UInt32.toNat_one]
  omega

theorem join_halves {w : Nat} (h : n < 2 ^ (w + w)) :
    (n >>> w % 2 ^ w) <<< w % 2 ^ (w + w) ||| n % 2 ^ w = n := by
  have hdiv : n / 2 ^ w < 2 ^ w := Nat.div_lt_of_lt_mul (Nat.pow_add 2 w w ▸ h)
  have hhigh : n / 2 ^ w * 2 ^ w < 2 ^ (w + w) :=
    Nat.lt_of_le_of_lt (Nat.div_mul_le_self n _) h
  rw [Nat.shiftRight_eq_div_pow, Nat.mod_eq_of_lt hdiv, Nat.shiftLeft_eq, Nat.mod_eq_of_lt hhigh,
    ← Nat.shiftLeft_eq, ← Nat.shiftLeft_add_eq_or_of_lt (Nat.mod_lt _ (Nat.two_pow_pos w)),
    Nat.shiftLeft_eq, Nat.div_add_mod']

theorem join_bytes (value : UInt16) :
    (value >>> 8).toUInt8.toUInt16 <<< 8 ||| value.toUInt8.toUInt16 = value := by
  rw [← UInt16.toNat_inj, UInt16.toNat_or]
  exact join_halves (w := 8) value.toNat_lt

theorem join_words (value : UInt32) :
    Word.join (value >>> 16).toUInt16 value.toUInt16 = value := by
  rw [← UInt32.toNat_inj, Word.join, UInt32.toNat_or]
  exact join_halves (w := 16) value.toNat_lt

theorem succ_of_even (h : x &&& 1 = 0) :
    (x + 1) &&& 1 = 1 ∧ ∀ mask, (x + 1) &&& mask &&& 0xFFFFFFFE = x &&& mask &&& 0xFFFFFFFE := by
  have hsucc := toNat_succ_of_even h
  rw [and_one_eq_zero] at h
  have hword : (x + 1) &&& 0xFFFFFFFE = x &&& 0xFFFFFFFE := by
    rw [← UInt32.toNat_inj, toNat_clear_lowest, toNat_clear_lowest, hsucc]
    omega
  refine ⟨?_, fun mask => ?_⟩
  · rw [← UInt32.toNat_inj, UInt32.toNat_and, hsucc]
    change (x.toNat + 1) &&& 1 = 1
    rw [Nat.and_one_is_mod]
    omega
  · rw [UInt32.and_assoc, UInt32.and_assoc, UInt32.and_comm mask, ← UInt32.and_assoc,
      ← UInt32.and_assoc, hword]

namespace IsWord

variable {high low : Cell}

variable (h : map.IsWord x high low)
include h

/-- Both cells of a word are in the range that its accesses come to. -/
theorem chunk :
    ∃ (i : Fin map.chunks.size) (k k' : Nat),
      map.find? (x &&& map.addressMask &&& 0xFFFFFFFE) = some i ∧
      (map.chunk i).access.read = true ∧ (map.chunk i).access.write = true ∧
      (map.chunk i).index? (x &&& map.addressMask &&& 0xFFFFFFFE) = some k ∧
      (map.chunk i).index? ((x &&& map.addressMask &&& 0xFFFFFFFE) + 1) = some k' ∧
      k < (map.chunk i).backing.room ∧ k' < (map.chunk i).backing.room ∧
      high = ⟨i, (map.chunk i).backing.mapped, k⟩ ∧
      low = ⟨i, (map.chunk i).backing.mapped, k'⟩ := by
  obtain ⟨hodd, hword⟩ := succ_of_even h.even
  obtain ⟨i, hi, hhigh⟩ := Option.bind_eq_some_iff.mp h.high
  obtain ⟨i', hi', hlow⟩ := Option.bind_eq_some_iff.mp h.low
  rw [hword, hi] at hi'
  cases Option.some.inj hi'
  rw [h.even, UInt32.add_zero] at hhigh
  rw [hword, hodd] at hlow
  obtain ⟨hread, hwrite, k, hk, hroom, rfl⟩ := cell?_eq_some.mp hhigh
  obtain ⟨-, -, k', hk', hroom', rfl⟩ := cell?_eq_some.mp hlow
  exact ⟨i, k, k', hi, hread, hwrite, hk, hk', hroom, hroom', rfl, rfl⟩

theorem congr (hsame : SameLayout map map') : map'.IsWord x high low where
  even := h.even
  high := (hsame.cellAt? x).trans h.high
  low := (hsame.cellAt? (x + 1)).trans h.low

theorem byteIn? :
    ∃ first second, map.byteIn? high = some first ∧ map.byteIn? low = some second ∧
      map.read16 x = (first.toUInt16 <<< 8 ||| second.toUInt16, map) := by
  obtain ⟨i, k, k', hi, hread, -, hk, hk', hroom, hroom', rfl, rfl⟩ := h.chunk
  obtain ⟨first, hfirst⟩ := Backing.byte?_of_lt_room hroom
  obtain ⟨second, hsecond⟩ := Backing.byte?_of_lt_room hroom'
  have hin (j : Nat) : map.byteIn? ⟨i, (map.chunk i).backing.mapped, j⟩ =
      (map.chunk i).backing.byte? (map.chunk i).backing.mapped j := by
    rw [MemoryMap.byteIn?, Array.getElem?_eq_getElem i.isLt]
    rfl
  refine ⟨first, second, (hin k).trans hfirst, (hin k').trans hsecond, ?_⟩
  have hhigh : (map.chunk i).get (x &&& map.addressMask &&& 0xFFFFFFFE) = first := by
    rw [Chunk.get, hk]
    exact Backing.get_of_byte? hfirst
  have hlow : (map.chunk i).get ((x &&& map.addressMask &&& 0xFFFFFFFE) + 1) = second := by
    rw [Chunk.get, hk']
    exact Backing.get_of_byte? hsecond
  rw [read16_found hi hread (Backing.plain_of_room hroom), hhigh, hlow]

theorem read16 : (map.read16 x).2 = map := by
  obtain ⟨first, second, -, -, hread⟩ := h.byteIn?
  rw [hread]

theorem read16_congr (hsame : SameLayout map map') (hhigh : map'.byteIn? high = map.byteIn? high)
    (hlow : map'.byteIn? low = map.byteIn? low) : (map'.read16 x).1 = (map.read16 x).1 := by
  obtain ⟨first, second, hfirst, hsecond, hread⟩ := h.byteIn?
  obtain ⟨first', second', hfirst', hsecond', hread'⟩ := (h.congr hsame).byteIn?
  rw [hfirst', hfirst] at hhigh
  rw [hsecond', hsecond] at hlow
  cases hhigh
  cases hlow
  rw [hread, hread']

theorem byteIn?_write16 (value : UInt16) (cell : Cell) :
    (map.write16 x value).2.byteIn? cell =
      if cell = low then some value.toUInt8
      else if cell = high then some (value >>> 8).toUInt8
      else map.byteIn? cell := by
  obtain ⟨i, k, k', hi, -, hwrite, hk, hk', hroom, hroom', rfl, rfl⟩ := h.chunk
  rw [write16_found hi hwrite (Backing.plain_of_room hroom), MemoryMap.byteIn?, MemoryMap.byteIn?]
  simp only [modifyChunk, Array.getElem?_modify]
  by_cases hrange : i.val = cell.range
  · rw [if_pos hrange, ← hrange, Array.getElem?_eq_getElem i.isLt]
    change (backing (set (set (map.chunk i) _ _) _ _)).byte? _ _ =
      if _ then _ else if _ then _ else (map.chunk i).backing.byte? _ _
    rw [backing_set ((index?_set ..).trans hk'), backing_set hk,
      Backing.byte?_set _ _ (by rwa [Backing.room_set]), Backing.byte?_set _ _ hroom,
      Backing.mapped_set]
    have hcell (j : Nat) : (cell.buffer = (map.chunk i).backing.mapped ∧ cell.index = j) =
        (cell = ⟨i, (map.chunk i).backing.mapped, j⟩) := by
      rw [Cell.mk.injEq]
      exact propext (and_iff_right hrange.symm).symm
    simp only [hcell]
  · have hother (j : Nat) : cell ≠ ⟨i, (map.chunk i).backing.mapped, j⟩ := by
      rintro rfl
      exact hrange rfl
    rw [if_neg hrange, if_neg (hother k'), if_neg (hother k)]

theorem byteIn?_write16_other (value : UInt16) {cell : Cell} (hhigh : cell ≠ high)
    (hlow : cell ≠ low) : (map.write16 x value).2.byteIn? cell = map.byteIn? cell := by
  rw [h.byteIn?_write16, if_neg hlow, if_neg hhigh]

theorem read16_write16 (hne : high ≠ low) (value : UInt16) :
    ((map.write16 x value).2.read16 x).1 = value := by
  obtain ⟨first, second, hfirst, hsecond, hread⟩ :=
    (h.congr (map.sameLayout_write16 x value)).byteIn?
  rw [h.byteIn?_write16, if_neg hne, if_pos rfl] at hfirst
  rw [h.byteIn?_write16, if_pos rfl] at hsecond
  cases hfirst
  cases hsecond
  rw [hread]
  exact join_bytes value

end IsWord

/-- The cells of `n` bytes from an address on. -/
def cellsAt (map : MemoryMap) (x : UInt32) : Nat → List (Option Cell)
  | 0 => []
  | n + 1 => map.cellAt? x :: map.cellsAt (x + 1) n

/-- Words read from an address on. -/
def words (map : MemoryMap) (x : UInt32) : Nat → List UInt16
  | 0 => []
  | n + 1 => (map.read16 x).1 :: map.words (x + 2) n

/-- Bytes of plain memory, no two of them the same. -/
structure IsRam (map : MemoryMap) (x : UInt32) (n : Nat) : Prop where
  plain : none ∉ map.cellsAt x n
  distinct : (map.cellsAt x n).Nodup

instance (map : MemoryMap) (x : UInt32) (n : Nat) : Decidable (map.IsRam x n) :=
  decidable_of_iff (none ∉ map.cellsAt x n ∧ (map.cellsAt x n).Nodup)
    ⟨fun h => ⟨h.1, h.2⟩, fun h => ⟨h.plain, h.distinct⟩⟩

theorem SameLayout.cellsAt (h : SameLayout m m') (x : UInt32) (n : Nat) :
    m'.cellsAt x n = m.cellsAt x n := by
  induction n generalizing x with
  | zero => rfl
  | succ n ih => rw [MemoryMap.cellsAt, MemoryMap.cellsAt, h.cellAt?, ih]

theorem SameLayout.isRam (h : SameLayout m m') (hram : m.IsRam x n) : m'.IsRam x n where
  plain := (h.cellsAt x n).symm ▸ hram.plain
  distinct := (h.cellsAt x n).symm ▸ hram.distinct

theorem cellsAt_word (map : MemoryMap) (x : UInt32) (n : Nat) :
    map.cellsAt x (n + 2) = map.cellAt? x :: map.cellAt? (x + 1) :: map.cellsAt (x + 2) n := by
  rw [cellsAt, cellsAt, UInt32.add_assoc]
  rfl

theorem cellsAt_add (map : MemoryMap) (x : UInt32) (j n : Nat) :
    map.cellsAt x (j + n) = map.cellsAt x j ++ map.cellsAt (x + j.toUInt32) n := by
  induction j generalizing x with
  | zero =>
    rw [Nat.zero_add, show x + (0 : Nat).toUInt32 = x from UInt32.add_zero x]
    rfl
  | succ j ih =>
    have hnext : x + 1 + j.toUInt32 = x + (j + 1).toUInt32 := by
      rw [UInt32.add_assoc, UInt32.add_comm 1]
      exact congrArg (x + ·) (UInt32.ofNat_add j 1).symm
    rw [Nat.succ_add, cellsAt, cellsAt, ih, hnext]
    rfl

theorem words_add (map : MemoryMap) (x : UInt32) (j n : Nat) :
    map.words x (j + n) = map.words x j ++ map.words (x + (2 * j).toUInt32) n := by
  induction j generalizing x with
  | zero =>
    rw [Nat.zero_add, show x + (2 * 0 : Nat).toUInt32 = x from UInt32.add_zero x]
    rfl
  | succ j ih =>
    have hnext : x + 2 + (2 * j).toUInt32 = x + (2 * (j + 1)).toUInt32 := by
      rw [UInt32.add_assoc, UInt32.add_comm 2]
      exact congrArg (x + ·) (UInt32.ofNat_add (2 * j) 2).symm
    rw [Nat.succ_add, words, words, ih, hnext]
    rfl

theorem even_add_two (h : x &&& 1 = 0) : (x + 2) &&& 1 = 0 :=
  add_even h (by decide)

theorem isWord_of_plain (heven : x &&& 1 = 0) (h : none ∉ map.cellsAt x (n + 2)) :
    ∃ high low, map.IsWord x high low ∧
      map.cellsAt x (n + 2) = some high :: some low :: map.cellsAt (x + 2) n := by
  rw [cellsAt_word] at h ⊢
  obtain ⟨hhigh, h⟩ := not_or.mp (fun hmem => h (List.mem_cons.mpr hmem))
  obtain ⟨hlow, -⟩ := not_or.mp (fun hmem => h (List.mem_cons.mpr hmem))
  obtain ⟨high, hhigh⟩ := Option.ne_none_iff_exists'.mp (Ne.symm hhigh)
  obtain ⟨low, hlow⟩ := Option.ne_none_iff_exists'.mp (Ne.symm hlow)
  exact ⟨high, low, ⟨heven, hhigh, hlow⟩, by rw [hhigh, hlow]⟩

theorem words_congr (hlayout : SameLayout m m') (heven : x &&& 1 = 0)
    (hplain : none ∉ m.cellsAt x (2 * n))
    (hbytes : ∀ cell, some cell ∈ m.cellsAt x (2 * n) → m'.byteIn? cell = m.byteIn? cell) :
    m'.words x n = m.words x n := by
  induction n generalizing x with
  | zero => rfl
  | succ n ih =>
    obtain ⟨high, low, hword, hcells⟩ := isWord_of_plain (n := 2 * n) heven hplain
    change none ∉ m.cellsAt x (2 * n + 2) at hplain
    change ∀ cell, some cell ∈ m.cellsAt x (2 * n + 2) → _ at hbytes
    rw [hcells] at hplain hbytes
    have htail {c : Option Cell} (hc : c ∈ m.cellsAt (x + 2) (2 * n)) :
        c ∈ some high :: some low :: m.cellsAt (x + 2) (2 * n) :=
      List.mem_cons_of_mem _ (List.mem_cons_of_mem _ hc)
    rw [words, words, ih (even_add_two heven) (fun hnone => hplain (htail hnone))
      fun cell hcell => hbytes cell (htail hcell)]
    rw [hword.read16_congr hlayout (hbytes high List.mem_cons_self)
      (hbytes low (List.mem_cons_of_mem _ List.mem_cons_self))]

/-- Words were stored from an address on, and nothing else. -/
structure Stored (map : MemoryMap) (x : UInt32) (ws : List UInt16) (map' : MemoryMap) : Prop where
  layout : SameLayout map map'
  found : map'.words x ws.length = ws
  outside : ∀ cell, some cell ∉ map.cellsAt x (2 * ws.length) → map'.byteIn? cell = map.byteIn? cell

/-- Words stay where others are stored elsewhere. -/
theorem Stored.later {y : UInt32} (h : map.Stored x vs m) (h' : m.Stored y ws m')
    (heven : x &&& 1 = 0) (hplain : none ∉ map.cellsAt x (2 * vs.length))
    (hapart : ∀ cell, some cell ∈ map.cellsAt x (2 * vs.length) →
      some cell ∉ map.cellsAt y (2 * ws.length)) :
    m'.words x vs.length = vs ∧ ∀ cell, some cell ∉ map.cellsAt x (2 * vs.length) →
      some cell ∉ map.cellsAt y (2 * ws.length) → m'.byteIn? cell = map.byteIn? cell := by
  simp only [← h.layout.cellsAt] at hplain hapart ⊢
  refine ⟨?_, fun cell hcell hcell' => ?_⟩
  · rw [words_congr h'.layout heven hplain fun cell hcell => h'.outside cell (hapart cell hcell),
      h.found]
  · rw [h'.outside cell hcell', h.outside cell (h.layout.cellsAt .. ▸ hcell)]

namespace IsRam

/-- Two stretches side by side have no cell in common. -/
theorem split {j : Nat} (h : map.IsRam x (j + n)) :
    map.IsRam x j ∧ map.IsRam (x + j.toUInt32) n ∧
      ∀ cell, some cell ∈ map.cellsAt x j → some cell ∉ map.cellsAt (x + j.toUInt32) n := by
  obtain ⟨hplain, hdistinct⟩ := h
  rw [cellsAt_add] at hplain hdistinct
  obtain ⟨hfirst, hsecond, hapart⟩ := List.nodup_append.mp hdistinct
  exact ⟨⟨fun hmem => hplain (List.mem_append_left _ hmem), hfirst⟩,
    ⟨fun hmem => hplain (List.mem_append_right _ hmem), hsecond⟩,
    fun cell hcell hcell' => hapart _ hcell _ hcell' rfl⟩

theorem append (vs ws : List UInt16) (h : map.IsRam x (2 * vs.length + 2 * ws.length))
    (heven : x &&& 1 = 0)
    (hstored : map.Stored x vs m ∧ m.Stored (x + (2 * vs.length).toUInt32) ws m' ∨
      map.Stored (x + (2 * vs.length).toUInt32) ws m ∧ m.Stored x vs m') :
    map.Stored x (vs ++ ws) m' := by
  obtain ⟨hfirst, hsecond, hapart⟩ := h.split
  have heven' : (x + (2 * vs.length).toUInt32) &&& 1 = 0 := add_even heven (by
    rw [and_one_eq_zero]
    change 2 * vs.length % 2 ^ 32 % 2 = 0
    omega)
  have hcells {cell : Cell} (hcell : some cell ∉ map.cellsAt x (2 * (vs ++ ws).length)) :
      some cell ∉ map.cellsAt x (2 * vs.length) ∧
        some cell ∉ map.cellsAt (x + (2 * vs.length).toUInt32) (2 * ws.length) := by
    rwa [List.length_append, Nat.mul_add, cellsAt_add, List.mem_append, not_or] at hcell
  rcases hstored with ⟨hstored, hlater⟩ | ⟨hstored, hlater⟩
  · obtain ⟨hfound, houtside⟩ := hstored.later hlater heven hfirst.plain hapart
    refine ⟨hstored.layout.trans hlater.layout, ?_, fun cell hcell =>
      houtside cell (hcells hcell).1 (hcells hcell).2⟩
    rw [List.length_append, words_add, hlater.found, hfound]
  · obtain ⟨hfound, houtside⟩ := hstored.later hlater heven' hsecond.plain
      fun cell hcell hcell' => hapart cell hcell' hcell
    refine ⟨hstored.layout.trans hlater.layout, ?_, fun cell hcell =>
      houtside cell (hcells hcell).2 (hcells hcell).1⟩
    rw [List.length_append, words_add, hlater.found, hfound]

theorem write16 (h : map.IsRam x 2) (heven : x &&& 1 = 0) (value : UInt16) :
    map.Stored x [value] (map.write16 x value).2 := by
  obtain ⟨high, low, hword, hcells⟩ := isWord_of_plain (n := 0) heven h.plain
  have hdistinct := h.distinct
  rw [hcells] at hdistinct
  have hne : high ≠ low := by
    rintro rfl
    exact (List.nodup_cons.mp hdistinct).1 List.mem_cons_self
  refine ⟨map.sameLayout_write16 x value, ?_, fun cell hcell => ?_⟩
  · exact congrArg (· :: []) (hword.read16_write16 hne value)
  · change some cell ∉ map.cellsAt x (0 + 2) at hcell
    rw [hcells] at hcell
    refine hword.byteIn?_write16_other value ?_ ?_
    · rintro rfl
      exact hcell List.mem_cons_self
    · rintro rfl
      exact hcell (List.mem_cons_of_mem _ List.mem_cons_self)

section

variable (h : map.IsRam x 4) (heven : x &&& 1 = 0)
include h heven

theorem write32 (value : UInt32) :
    map.Stored x [(value >>> 16).toUInt16, value.toUInt16] (map.write32 x value).2 := by
  obtain ⟨hfirst, hsecond, -⟩ := split (j := 2) (n := 2) h
  have hhigh := hfirst.write16 heven (value >>> 16).toUInt16
  exact append [_] [_] h heven (.inl ⟨hhigh,
    (hhigh.layout.isRam hsecond).write16 (even_add_two heven) value.toUInt16⟩)

theorem write32LowFirst (value : UInt32) :
    map.Stored x [(value >>> 16).toUInt16, value.toUInt16] (map.write32LowFirst x value).2 := by
  obtain ⟨hfirst, hsecond, -⟩ := split (j := 2) (n := 2) h
  have hlow := hsecond.write16 (even_add_two heven) value.toUInt16
  exact append [_] [_] h heven (.inr ⟨hlow,
    (hlow.layout.isRam hfirst).write16 heven (value >>> 16).toUInt16⟩)

end

theorem read16 (h : map.IsRam x 2) (heven : x &&& 1 = 0) : (map.read16 x).2 = map := by
  obtain ⟨high, low, hword, -⟩ := isWord_of_plain (n := 0) heven h.plain
  exact hword.read16

theorem read32 (h : map.IsRam x 4) (heven : x &&& 1 = 0) {high low : UInt16}
    (hwords : map.words x 2 = [high, low]) : map.read32 x = (Word.join high low, map) := by
  obtain ⟨hfirst, hsecond, -⟩ := split (j := 2) (n := 2) h
  obtain ⟨hhigh, hlow⟩ := List.cons.inj hwords
  have hread : map.read16 x = (high, map) := Prod.ext hhigh (hfirst.read16 heven)
  have hread' : map.read16 (x + 2) = (low, map) :=
    Prod.ext (List.cons.inj hlow).1 (hsecond.read16 (even_add_two heven))
  rw [MemoryMap.read32, hread]
  dsimp only
  rw [hread']

end IsRam

end MemoryMap

end Dynarec68k
