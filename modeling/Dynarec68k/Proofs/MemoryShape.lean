import Dynarec68k.Compiled.Block

namespace Dynarec68k

open Chunk

variable {f : Chunk → Chunk} {chunks : List Chunk} {m m' m'' : MemoryMap}
  (map : MemoryMap) (address : UInt32)

/-- A range without its contents. -/
structure ChunkShape where
  start : UInt32
  stop : UInt32
  mask : UInt32
  access : Access
  device : Bool
  banked : Bool
  deriving DecidableEq

namespace Chunk

def shape (chunk : Chunk) : ChunkShape where
  start := chunk.start
  stop := chunk.stop
  mask := chunk.mask
  access := chunk.access
  device := chunk.backing.isDevice
  banked := chunk.backing.isBanked

/-- What instruction fetches see of a range. -/
def face (chunk : Chunk) : ChunkShape × Option ByteArray :=
  (chunk.shape, chunk.backing.bytes?)

theorem shape_set (chunk : Chunk) (address : UInt32) (value : UInt8) :
    (chunk.set address value).shape = chunk.shape := by
  unfold set
  split
  · cases hbacking : chunk.backing <;> simp [shape, Backing.set, hbacking, Backing.isDevice,
      Backing.isBanked]
  · rfl

/-- The range has addresses, and buffers that reach as far as they do. -/
structure Covered (chunk : Chunk) : Prop where
  filled : chunk.start < chunk.stop
  banks : chunk.backing.isBanked = true → chunk.backing.buffers ≠ []
  sizes : ∀ data ∈ chunk.backing.buffers, chunk.needed ≤ data.size

/-- No address lies in both ranges. -/
def Apart (chunk chunk' : Chunk) : Prop :=
  ∀ x, ¬(chunk.contains x = true ∧ chunk'.contains x = true)

variable {chunk chunk' : Chunk}

theorem contains_iff {x : UInt32} :
    chunk.contains x = true ↔ chunk.start ≤ x ∧ x < chunk.stop := by
  rw [contains, Bool.and_eq_true, decide_eq_true_eq, decide_eq_true_eq]

theorem Apart.symm (h : chunk.Apart chunk') : chunk'.Apart chunk :=
  fun x hx => h x hx.symm

theorem apart_of_le (h : chunk.stop ≤ chunk'.start) : chunk.Apart chunk' := by
  rintro x ⟨hx, hx'⟩
  have hstop := UInt32.lt_of_lt_of_le (contains_iff.mp hx).2 h
  exact UInt32.not_le.mpr hstop (contains_iff.mp hx').1

theorem Apart.le (h : chunk.Apart chunk') (hfilled : chunk'.start < chunk'.stop)
    (hle : chunk.start ≤ chunk'.start) : chunk.stop ≤ chunk'.start := by
  refine UInt32.not_lt.mp fun hlt => h chunk'.start ⟨?_, ?_⟩
  · exact contains_iff.mpr ⟨hle, hlt⟩
  · exact contains_iff.mpr ⟨UInt32.le_refl _, hfilled⟩

end Chunk

theorem find?_map_congr {α β : Type} {picture : α → β} {list list' : List α}
    (h : list'.map picture = list.map picture) (test : β → Bool) :
    (list'.find? fun x => test (picture x)).map picture =
      (list.find? fun x => test (picture x)).map picture := by
  have hfind (l : List α) : (l.find? fun x => test (picture x)).map picture =
      (l.map picture).find? test :=
    List.find?_map.symm
  rw [hfind, hfind, h]

theorem and_full (x : UInt32) : x &&& 0xFFFFFFFF = x := by
  rw [← UInt32.toNat_inj, UInt32.toNat_and]
  exact (Nat.and_two_pow_sub_one_eq_mod _ 32).trans (Nat.mod_eq_of_lt x.toNat_lt)

namespace MemoryMap

theorem index_lt (i : Fin map.chunks.size) : i.val < map.chunks.size :=
  i.isLt

def chunk (map : MemoryMap) (i : Fin map.chunks.size) : Chunk :=
  getElem map.chunks i.val (map.index_lt i)

/-- The range that answers to an address. -/
def chunkAt? (map : MemoryMap) (address : UInt32) : Option Chunk :=
  map.chunks.toList.find? fun chunk => chunk.contains (address &&& map.addressMask)

@[simp]
theorem find?_onBus : map.find? (address &&& map.addressMask) = map.find? address := by
  rw [find?, find?, UInt32.and_assoc, UInt32.and_self]

theorem chunkAt?_eq : map.chunkAt? address = (map.find? address).map map.chunk := by
  rw [chunkAt?, Array.find?_toList, Array.find?_eq_map_findFinIdx?_getElem]
  rfl

theorem isExecutable_eq :
    map.isExecutable address = ((map.chunkAt? address).map Chunk.isExecutable).getD false := by
  rw [chunkAt?_eq, isExecutable]
  cases map.find? address <;> rfl

theorem isTracked_eq :
    map.isTracked address = ((map.chunkAt? address).map Chunk.isTracked).getD false := by
  rw [chunkAt?_eq, isTracked]
  cases map.find? address <;> rfl

theorem canonical_eq :
    map.canonical address =
      ((map.chunkAt? address).map fun chunk =>
        chunk.start + chunk.offset (address &&& map.addressMask)).getD
          (address &&& map.addressMask) := by
  rw [chunkAt?_eq, canonical]
  simp only [find?_onBus]
  cases map.find? address <;> rfl

/-- The word at an index of a buffer, if both of its bytes are there. -/
def wordOf (data : ByteArray) (index : Nat) : Option UInt16 :=
  match data.data[index]?, data.data[index + 1]? with
  | some high, some low => some (high.toUInt16 <<< 8 ||| low.toUInt16)
  | _, _ => none

theorem wordOf_eq_none {data : ByteArray} {index : Nat} :
    wordOf data index = none ↔ data.size ≤ index + 1 := by
  constructor
  · intro h
    refine Nat.not_lt.mp fun hlt => ?_
    have hhigh : data.data[index]? = some data[index] :=
      Array.getElem?_eq_getElem (Nat.lt_of_succ_lt hlt)
    have hlow : data.data[index + 1]? = some data[index + 1] := Array.getElem?_eq_getElem hlt
    rw [wordOf, hhigh, hlow] at h
    cases h
  · intro h
    have hlow : data.data[index + 1]? = none := Array.getElem?_eq_none h
    rw [wordOf, hlow]
    cases data.data[index]? <;> rfl

/-- Up to `count` words of a range, from `address` on, while both bytes lie inside. -/
def fetchFrom (chunk : Chunk) (data : ByteArray) (address : UInt32) : Nat → List UInt16
  | 0 => []
  | count + 1 =>
    if address < chunk.start ∨ chunk.stop ≤ address + 1 then []
    else ((wordOf data (chunk.offset address).toNat).map
      (· :: fetchFrom chunk data (address + 2) count)).getD []

theorem fetchInto_eq (chunk : Chunk) (data : ByteArray) (address : UInt32) (slots : List UInt16) :
    fetchInto chunk data address slots =
      let words := fetchFrom chunk data address slots.length
      (words.length, words ++ slots.drop words.length) := by
  induction slots generalizing address with
  | nil => rfl
  | cons slot rest ih =>
    rw [fetchInto, List.length_cons, fetchFrom]
    split
    · rfl
    dsimp only
    split
    · rename_i hlt
      have hhigh : data.data[(chunk.offset address).toNat]? =
          some data[(chunk.offset address).toNat] :=
        Array.getElem?_eq_getElem (Nat.lt_of_succ_lt hlt)
      have hlow : data.data[(chunk.offset address).toNat + 1]? =
          some data[(chunk.offset address).toNat + 1] := Array.getElem?_eq_getElem hlt
      rw [ih, wordOf, hhigh, hlow]
      rfl
    · rename_i hlt
      rw [wordOf_eq_none.mpr (Nat.not_lt.mp hlt)]
      rfl

theorem fetchSlots_eq (slots : List UInt16) :
    map.fetchSlots address slots =
      let words := ((map.chunkAt? address).map fun chunk =>
        (chunk.backing.bytes?.map fun data =>
          fetchFrom chunk data (address &&& map.addressMask) slots.length).getD []).getD []
      (words.length, words ++ slots.drop words.length) := by
  rw [chunkAt?_eq, fetchSlots]
  cases map.find? address with
  | none => rfl
  | some i =>
    simp only [Option.map_some, Option.getD_some, chunk, Fin.getElem_fin]
    cases map.chunks[i.val].backing.bytes? with
    | none => rfl
    | some data => exact fetchInto_eq ..

theorem fetchWords_eq (count : Nat) :
    map.fetchWords address count =
      ((map.chunkAt? address).map fun chunk =>
        (chunk.backing.bytes?.map fun data =>
          fetchFrom chunk data (address &&& map.addressMask) count).getD []).getD [] := by
  rw [fetchWords, fetchSlots_eq, List.length_replicate]
  exact List.take_left

/-- Two maps of the same ranges, whatever their contents. -/
structure SameShape (m m' : MemoryMap) : Prop where
  bus : m'.addressMask = m.addressMask
  chunks : m'.chunks.toList.map shape = m.chunks.toList.map shape

/-- Two maps of the same ranges that hold the same code. -/
structure SameCode (m m' : MemoryMap) : Prop where
  bus : m'.addressMask = m.addressMask
  chunks : m'.chunks.toList.map face = m.chunks.toList.map face

namespace SameShape

theorem refl (m : MemoryMap) : SameShape m m :=
  ⟨rfl, rfl⟩

variable (h : SameShape m m') (x : UInt32)
include h

theorem trans (h' : SameShape m' m'') : SameShape m m'' :=
  ⟨h'.bus.trans h.bus, h'.chunks.trans h.chunks⟩

theorem chunkAt? : (m'.chunkAt? x).map shape = (m.chunkAt? x).map shape := by
  unfold MemoryMap.chunkAt?
  rw [h.bus]
  exact find?_map_congr h.chunks fun shape =>
    decide (shape.start ≤ x &&& m.addressMask) && decide (x &&& m.addressMask < shape.stop)

theorem reading {β : Type} (f : ChunkShape → β) (x : UInt32) :
    (m'.chunkAt? x).map (fun chunk => f chunk.shape) =
      (m.chunkAt? x).map fun chunk => f chunk.shape := by
  have hmap := congrArg (Option.map f) (h.chunkAt? x)
  rwa [Option.map_map, Option.map_map] at hmap

theorem isExecutable : m'.isExecutable x = m.isExecutable x := by
  rw [isExecutable_eq, isExecutable_eq]
  exact congrArg (Option.getD · false)
    (h.reading (fun shape => shape.access.code && !shape.access.laneOnly && !shape.device) x)

theorem isTracked : m'.isTracked x = m.isTracked x := by
  rw [isTracked_eq, isTracked_eq]
  exact congrArg (Option.getD · false)
    (h.reading (fun shape => shape.access.code && !shape.access.laneOnly && !shape.device &&
      (shape.access.write || shape.banked)) x)

theorem canonical : m'.canonical x = m.canonical x := by
  rw [canonical_eq, canonical_eq, h.bus]
  exact congrArg (Option.getD · (x &&& m.addressMask))
    (h.reading (fun shape => shape.start +
      (((x &&& m.addressMask) - shape.start) &&& shape.mask)) x)

end SameShape

namespace SameCode

theorem refl (m : MemoryMap) : SameCode m m :=
  ⟨rfl, rfl⟩

theorem trans (h : SameCode m m') (h' : SameCode m' m'') : SameCode m m'' :=
  ⟨h'.bus.trans h.bus, h'.chunks.trans h.chunks⟩

theorem shape (h : SameCode m m') : SameShape m m' where
  bus := h.bus
  chunks := by
    have hmap := congrArg (List.map Prod.fst) h.chunks
    rwa [List.map_map, List.map_map] at hmap

theorem fetchWords (h : SameCode m m') (x : UInt32) (count : Nat) :
    m'.fetchWords x count = m.fetchWords x count := by
  have hchunk : (m'.chunkAt? x).map face = (m.chunkAt? x).map face := by
    unfold MemoryMap.chunkAt?
    rw [h.bus]
    exact find?_map_congr h.chunks fun face =>
      decide (face.1.start ≤ x &&& m.addressMask) && decide (x &&& m.addressMask < face.1.stop)
  have hfetch (chunk chunk' : Chunk) (hshape : chunk'.shape = chunk.shape) (data : ByteArray)
      (address : UInt32) (count : Nat) :
      fetchFrom chunk' data address count = fetchFrom chunk data address count := by
    have hstart : chunk'.start = chunk.start := congrArg ChunkShape.start hshape
    have hstop : chunk'.stop = chunk.stop := congrArg ChunkShape.stop hshape
    have hmask : chunk'.mask = chunk.mask := congrArg ChunkShape.mask hshape
    induction count generalizing address with
    | zero => rfl
    | succ count ih =>
      simp only [fetchFrom, offset, hstart, hstop, hmask, ih]
  rw [fetchWords_eq, fetchWords_eq, h.bus]
  cases hleft : m.chunkAt? x with
  | none =>
    rw [hleft, Option.map_none, Option.map_eq_none_iff] at hchunk
    rw [hchunk]
  | some chunk =>
    rw [hleft, Option.map_some, Option.map_eq_some_iff] at hchunk
    obtain ⟨chunk', hright, hface⟩ := hchunk
    rw [hright]
    obtain ⟨hshape, hbytes⟩ := Prod.mk.inj hface
    simp only [Option.map_some, Option.getD_some, hbytes]
    cases chunk.backing.bytes? with
    | none => rfl
    | some data => exact hfetch chunk chunk' hshape data _ _

end SameCode

theorem map_chunks_set {β : Type} (picture : Chunk → β) (chunks : Array Chunk)
    (i : Fin chunks.size) {chunk : Chunk} (h : picture chunk = picture chunks[i]) :
    (chunks.set i chunk).toList.map picture = chunks.toList.map picture := by
  refine List.ext_getElem? fun j => ?_
  rw [List.getElem?_map, List.getElem?_map, Array.getElem?_toList, Array.getElem?_toList,
    Array.getElem?_set]
  split
  · rename_i hij
    rw [← hij, Array.getElem?_eq_getElem i.isLt, Option.map_some, Option.map_some, h]
    rfl
  · rfl

theorem set_eq_modify {chunks : Array Chunk} (i : Fin chunks.size) {chunk : Chunk}
    (h : f chunks[i] = chunk) : chunks.set i chunk = chunks.modify i f := by
  refine Array.ext_getElem? fun j => ?_
  rw [Array.getElem?_set, Array.getElem?_modify]
  split
  · rename_i hij
    rw [← hij, Array.getElem?_eq_getElem i.isLt, ← h]
    rfl
  · rfl

theorem map_chunks_modify {β : Type} (picture : Chunk → β) (chunks : Array Chunk) (i : Nat)
    (h : ∀ chunk, picture (f chunk) = picture chunk) :
    (chunks.modify i f).toList.map picture = chunks.toList.map picture := by
  refine List.ext_getElem? fun j => ?_
  rw [List.getElem?_map, List.getElem?_map, Array.getElem?_toList, Array.getElem?_toList,
    Array.getElem?_modify]
  split
  · rw [Option.map_map]
    exact congrArg (Option.map · chunks[j]?) (funext h)
  · rfl

variable (map : MemoryMap) (address : UInt32)

theorem sameCode_setDevice (i : Fin map.chunks.size) {device : Device}
    (h : (map.chunk i).backing = .device device) (device' : Device) (event : Event) :
    SameCode map (map.setDevice i device' event) where
  bus := rfl
  chunks := map_chunks_set face _ i (by
    change _ = (map.chunk i).face
    simp only [face, shape, h]
    rfl)

theorem sameShape_modifyChunk (i : Nat) (h : ∀ chunk, (f chunk).shape = chunk.shape) :
    SameShape map (map.modifyChunk i f) where
  bus := rfl
  chunks := map_chunks_modify shape _ i h

section

-- What reads and writes can make of a map: nothing else, another device, another content.
variable {R : MemoryMap → Prop} (hsame : R map)
  (hdevice : ∀ (i : Fin map.chunks.size) {device : Device},
    (map.chunk i).backing = .device device →
      ∀ device' event, R (map.setDevice i device' event)) (address : UInt32)
include hsame hdevice

theorem after_read8 : R (map.read8 address).2 := by
  unfold read8
  dsimp only
  split
  · exact hsame
  · split
    · split
      · rename_i hbacking
        exact hdevice _ hbacking _ _
      · exact hsame
    · exact hsame

theorem after_read16 : R (map.read16 address).2 := by
  unfold read16
  dsimp only
  split
  · exact hsame
  · split
    · split
      · rename_i hbacking
        exact hdevice _ hbacking _ _
      · exact hsame
    · exact hsame

theorem after_write8 (value : UInt8)
    (hstore : ∀ i, map.find? (address &&& map.addressMask) = some i →
      (map.chunk i).access.write = true →
        R (map.modifyChunk i fun chunk => chunk.set (address &&& map.addressMask) value)) :
    R (map.write8 address value).2 := by
  unfold write8
  dsimp only
  split
  · exact hsame
  · rename_i i hfind
    split
    · rename_i hwrite
      split
      · rename_i hbacking
        exact hdevice _ hbacking _ _
      · exact hstore i hfind hwrite
    · exact hsame

theorem after_write16 (value : UInt16)
    (hstore : ∀ i, map.find? (address &&& map.addressMask &&& 0xFFFFFFFE) = some i →
      (map.chunk i).access.write = true →
        R (map.modifyChunk i fun chunk =>
          (chunk.set (address &&& map.addressMask &&& 0xFFFFFFFE) (value >>> 8).toUInt8).set
            ((address &&& map.addressMask &&& 0xFFFFFFFE) + 1) value.toUInt8)) :
    R (map.write16 address value).2 := by
  unfold write16
  dsimp only
  split
  · exact hsame
  · rename_i i hfind
    split
    · rename_i hwrite
      split
      · rename_i hbacking
        exact hdevice _ hbacking _ _
      · exact hstore i hfind hwrite
    · exact hsame

end

theorem sameCode_read8 : SameCode map (map.read8 address).2 :=
  map.after_read8 (.refl map) map.sameCode_setDevice address

theorem sameCode_read16 : SameCode map (map.read16 address).2 :=
  map.after_read16 (.refl map) map.sameCode_setDevice address

theorem sameCode_read32 : SameCode map (map.read32 address).2 :=
  (map.sameCode_read16 address).trans (sameCode_read16 _ (address + 2))

/-- What is written, of longs in either order. -/
inductive Write where
  | byte (value : UInt8)
  | word (value : UInt16)
  | long (value : UInt32)
  | longLowFirst (value : UInt32)

def Write.bytes : Write → Nat
  | byte _ => 1
  | word _ => 2
  | long _ | longLowFirst _ => 4

def write (map : MemoryMap) (address : UInt32) : Write → DeviceAction × MemoryMap
  | .byte value => map.write8 address value
  | .word value => map.write16 address value
  | .long value => map.write32 address value
  | .longLowFirst value => map.write32LowFirst address value

theorem sameShape_write8 (value : UInt8) : SameShape map (map.write8 address value).2 :=
  map.after_write8 (.refl map) (fun i _ h device' event =>
      (map.sameCode_setDevice i h device' event).shape) address value fun _ _ _ =>
    map.sameShape_modifyChunk _ fun chunk => chunk.shape_set _ _

theorem sameShape_write16 (value : UInt16) : SameShape map (map.write16 address value).2 := by
  refine map.after_write16 (.refl map) (fun i _ h device' event =>
    (map.sameCode_setDevice i h device' event).shape) address value fun _ _ _ => ?_
  refine map.sameShape_modifyChunk _ fun chunk => ?_
  rw [shape_set, shape_set]

theorem sameShape_write (w : Write) : SameShape map (map.write address w).2 := by
  cases w with
  | byte value => exact map.sameShape_write8 address value
  | word value => exact map.sameShape_write16 address value
  | long => exact (map.sameShape_write16 address _).trans (sameShape_write16 _ (address + 2) _)
  | longLowFirst =>
    exact (map.sameShape_write16 (address + 2) _).trans (sameShape_write16 _ address _)

theorem sameShape_selectBank {start : UInt32} {bank : Nat} {changed : Option (UInt32 × UInt32)}
    {map' : MemoryMap} (h : map.selectBank start bank = .ok (changed, map')) :
    SameShape map map' := by
  unfold selectBank at h
  split at h
  · exact absurd h (by simp)
  · dsimp only at h
    split at h
    · rename_i banks active hbanked
      split at h
      · exact absurd h (by simp)
      · split at h
        · simp only [Except.ok.injEq, Prod.mk.injEq] at h
          exact h.2 ▸ .refl map
        · simp only [Except.ok.injEq, Prod.mk.injEq] at h
          rw [← h.2]
          refine ⟨rfl, map_chunks_set shape _ _ ?_⟩
          simp only [shape, hbanked]
          rfl
    · exact absurd h (by simp)

/-- Ranges are not empty and do not overlap, and the bus has all of its lower lines. -/
structure Sound : Prop where
  bus : ∀ x y : UInt32, y ≤ x &&& map.addressMask → y &&& map.addressMask = y
  apart : map.chunks.toList.Pairwise fun c d => c.stop ≤ d.start
  filled : ∀ chunk ∈ map.chunks.toList, chunk.start < chunk.stop

theorem SameShape.apart (hshape : SameShape m m')
    (h : m.chunks.toList.Pairwise fun c d => c.stop ≤ d.start) :
    m'.chunks.toList.Pairwise fun c d => c.stop ≤ d.start := by
  have hpairwise (list : List Chunk) :
      (list.map shape).Pairwise (fun c d => c.stop ≤ d.start) ↔
        list.Pairwise fun c d => c.stop ≤ d.start :=
    List.pairwise_map
  rw [← hpairwise, hshape.chunks, hpairwise]
  exact h

theorem Sound.congr (h : m.Sound) (hshape : SameShape m m') : m'.Sound where
  bus := hshape.bus ▸ h.bus
  apart := hshape.apart h.apart
  filled := by
    have hall (list : List Chunk) : (∀ shape ∈ list.map Chunk.shape, shape.start < shape.stop) ↔
        ∀ chunk ∈ list, chunk.start < chunk.stop :=
      List.forall_mem_map
    rw [← hall, hshape.chunks, hall]
    exact h.filled

theorem find?_contains (h : chunks.Pairwise fun c d => c.stop ≤ d.start) {chunk : Chunk}
    (hmem : chunk ∈ chunks) {address : UInt32} (hcontains : chunk.contains address = true) :
    chunks.find? (fun c => c.contains address) = some chunk := by
  induction h with
  | nil => exact absurd hmem List.not_mem_nil
  | @cons first rest hfirst _ ih =>
    rcases List.mem_cons.mp hmem with rfl | hrest
    · exact List.find?_cons_of_pos hcontains
    · rw [List.find?_cons_of_neg, ih hrest]
      simp only [contains, Bool.and_eq_true, decide_eq_true_eq] at hcontains ⊢
      have hstart := UInt32.le_trans (hfirst chunk hrest) hcontains.1
      exact fun hinside => absurd hinside.2 (UInt32.not_lt.mpr hstart)

theorem canonical_of_masks {map : MemoryMap}
    (h : ∀ chunk ∈ map.chunks, chunk.mask = 0xFFFFFFFF) (x : UInt32) :
    map.canonical x = x &&& map.addressMask := by
  rw [canonical_eq]
  cases hchunk : map.chunkAt? x with
  | none => rfl
  | some chunk =>
    have hmask := h chunk (Array.mem_toList_iff.mp (List.mem_of_find?_eq_some hchunk))
    rw [Option.map_some, Option.getD_some, offset, hmask, and_full, UInt32.add_comm,
      UInt32.sub_add_cancel]

theorem toNat_canonical {map : MemoryMap} {chunk : Chunk} {x : UInt32}
    (hchunk : map.chunkAt? x = some chunk) :
    (map.canonical x).toNat =
        chunk.start.toNat + (chunk.offset (x &&& map.addressMask)).toNat ∧
      (map.canonical x).toNat ≤ (x &&& map.addressMask).toNat := by
  have hinside := List.find?_some hchunk
  rw [map.canonical_eq x, hchunk, Option.map_some, Option.getD_some]
  generalize x &&& map.addressMask = onBus at hinside ⊢
  simp only [contains, Bool.and_eq_true, decide_eq_true_eq] at hinside
  have hle := hinside.1
  have hoffset : (chunk.offset onBus).toNat ≤ onBus.toNat - chunk.start.toNat := by
    rw [offset, UInt32.toNat_and, ← UInt32.toNat_sub_of_le onBus chunk.start hle]
    exact Nat.and_le_left
  rw [UInt32.le_iff_toNat_le] at hle
  have hbound := onBus.toNat_lt
  have hsum : (chunk.start + chunk.offset onBus).toNat =
      chunk.start.toNat + (chunk.offset onBus).toNat := by
    rw [UInt32.toNat_add, Nat.mod_eq_of_lt (by omega)]
  exact ⟨hsum, by omega⟩

theorem canonical_le (map : MemoryMap) (x : UInt32) :
    (map.canonical x).toNat ≤ (x &&& map.addressMask).toNat := by
  cases hchunk : map.chunkAt? x with
  | none =>
    rw [canonical_eq, hchunk]
    exact Nat.le_refl _
  | some chunk => exact (toNat_canonical hchunk).2

theorem canonical_le_bus {map : MemoryMap} {mask : UInt32} (h : map.addressMask = mask) (x : UInt32) :
    (map.canonical x).toNat ≤ mask.toNat := by
  refine Nat.le_trans (map.canonical_le x) ?_
  rw [h, UInt32.toNat_and]
  exact Nat.and_le_right

namespace Sound

variable {map : MemoryMap} (h : map.Sound) (x : UInt32)
include h

theorem canonical_onBus : map.canonical x &&& map.addressMask = map.canonical x :=
  h.bus x _ (UInt32.le_iff_toNat_le.mpr (map.canonical_le x))

theorem chunkAt?_canonical : map.chunkAt? (map.canonical x) = map.chunkAt? x := by
  have hbus := h.canonical_onBus x
  cases hchunk : map.chunkAt? x with
  | none =>
    have hself : map.canonical x = x &&& map.addressMask := by
      rw [canonical_eq, hchunk]
      rfl
    rw [chunkAt?, hbus, hself, ← chunkAt?]
    exact hchunk
  | some chunk =>
    obtain ⟨hcanonical, hle⟩ := toNat_canonical hchunk
    have hinside := List.find?_some hchunk
    rw [chunkAt?, hbus]
    refine find?_contains h.apart (List.mem_of_find?_eq_some hchunk) ?_
    simp only [contains, Bool.and_eq_true, decide_eq_true_eq, UInt32.le_iff_toNat_le,
      UInt32.lt_iff_toNat_lt] at hinside ⊢
    omega

theorem canonical_canonical : map.canonical (map.canonical x) = map.canonical x := by
  rw [map.canonical_eq (map.canonical x), h.chunkAt?_canonical, h.canonical_onBus,
    map.canonical_eq x]
  cases map.chunkAt? x with
  | none => rfl
  | some chunk =>
    have hdistance (y : UInt32) : chunk.start + y - chunk.start = y := by
      rw [UInt32.add_comm, UInt32.add_sub_cancel]
    simp only [Option.map_some, Option.getD_some, offset, hdistance, UInt32.and_assoc,
      UInt32.and_self]

end Sound

theorem bus_of_model (model : Model) (x y : UInt32) (h : y ≤ x &&& model.addressMask) :
    y &&& model.addressMask = y := by
  have hwidth : ∃ k ≤ 32, model.addressMask.toNat = 2 ^ k - 1 := by
    cases model
    · exact ⟨24, by decide, rfl⟩
    · exact ⟨24, by decide, rfl⟩
    · exact ⟨32, by decide, rfl⟩
  obtain ⟨k, -, hmask⟩ := hwidth
  rw [UInt32.le_iff_toNat_le, UInt32.toNat_and, hmask, Nat.and_two_pow_sub_one_eq_mod] at h
  rw [← UInt32.toNat_inj, UInt32.toNat_and, hmask, Nat.and_two_pow_sub_one_eq_mod]
  exact Nat.mod_eq_of_lt (Nat.lt_of_le_of_lt h (Nat.mod_lt _ (Nat.two_pow_pos k)))

theorem checkChunk_ok (chunk : Chunk) : checkChunk chunk = .ok () ↔ chunk.Covered := by
  unfold checkChunk
  split
  · rename_i hempty
    exact iff_of_false (by simp) fun h => UInt32.not_le.mpr h.filled hempty
  · rename_i hfilled
    split
    · rename_i hnone
      rw [Bool.and_eq_true, List.isEmpty_iff] at hnone
      exact iff_of_false (by simp) fun h => h.banks hnone.1 hnone.2
    · rename_i hsome
      rw [Bool.and_eq_true, List.isEmpty_iff, not_and] at hsome
      split
      · rename_i data hdata
        have hshort : data.size < chunk.needed := by simpa using List.find?_some hdata
        exact iff_of_false (by simp) fun h =>
          Nat.not_le.mpr hshort (h.sizes data (List.mem_of_find?_eq_some hdata))
      · rename_i hlong
        refine ⟨fun _ => ⟨UInt32.not_le.mp hfilled, hsome, fun data hdata => ?_⟩, fun _ => rfl⟩
        exact Nat.not_lt.mp fun h => List.find?_eq_none.mp hlong data hdata (decide_eq_true h)

theorem checkChunks_ok (chunks : List Chunk) :
    checkChunks chunks = .ok () ↔ ∀ chunk ∈ chunks, chunk.Covered := by
  induction chunks with
  | nil => exact ⟨fun _ chunk hmem => absurd hmem List.not_mem_nil, fun _ => rfl⟩
  | cons first rest ih =>
    rw [List.forall_mem_cons, ← ih, ← checkChunk_ok, checkChunks]
    split
    · rename_i hfirst
      exact ⟨fun h => ⟨hfirst, h⟩, fun h => h.2⟩
    · rename_i error hfirst
      exact iff_of_false (by simp) fun h => by simp [h.1] at hfirst

theorem checkDisjoint_ok (hrange : ∀ chunk ∈ chunks, chunk.start < chunk.stop) :
    checkDisjoint chunks = .ok () ↔ chunks.Pairwise fun c d => c.stop ≤ d.start := by
  induction chunks with
  | nil => exact ⟨fun _ => .nil, fun _ => rfl⟩
  | cons first rest ih =>
    cases rest with
    | nil => exact ⟨fun _ => List.pairwise_singleton _ _, fun _ => rfl⟩
    | cons second rest =>
      obtain ⟨-, hrest⟩ := List.forall_mem_cons.mp hrange
      obtain ⟨hsecond, -⟩ := List.forall_mem_cons.mp hrest
      rw [checkDisjoint, List.pairwise_cons, ← ih hrest]
      split
      · rename_i hnext
        exact iff_of_false (by simp) fun h =>
          UInt32.not_le.mpr hnext (h.1 second List.mem_cons_self)
      · rename_i hnext
        refine ⟨fun h => ⟨?_, h⟩, fun h => h.2⟩
        have hle : first.stop ≤ second.start := UInt32.not_lt.mp hnext
        refine List.forall_mem_cons.mpr ⟨hle, fun chunk hmem => ?_⟩
        have hlater := (List.pairwise_cons.mp ((ih hrest).mp h)).1 chunk hmem
        exact UInt32.le_trans hle (UInt32.le_trans (UInt32.le_of_lt hsecond) hlater)

theorem mem_sortChunks (chunk : Chunk) : chunk ∈ sortChunks chunks ↔ chunk ∈ chunks :=
  (List.mergeSort_perm ..).mem_iff

theorem pairwise_sortChunks (hrange : ∀ chunk ∈ chunks, chunk.start < chunk.stop) :
    (sortChunks chunks).Pairwise (fun c d => c.stop ≤ d.start) ↔
      chunks.Pairwise Apart := by
  have hperm : (sortChunks chunks).Perm chunks := List.mergeSort_perm ..
  have hsorted : (sortChunks chunks).Pairwise fun c d => decide (c.start ≤ d.start) = true := by
    refine List.pairwise_mergeSort (fun a b c hab hbc => ?_) (fun a b => ?_) chunks
    · exact decide_eq_true (UInt32.le_trans (of_decide_eq_true hab) (of_decide_eq_true hbc))
    · rw [Bool.or_eq_true, decide_eq_true_eq, decide_eq_true_eq]
      exact UInt32.le_total ..
  rw [← hperm.pairwise_iff Apart.symm]
  refine ⟨List.Pairwise.imp apart_of_le, fun h => ?_⟩
  refine (List.pairwise_and_iff.mpr ⟨h, hsorted⟩).imp_of_mem fun {c d} _ hd hboth => ?_
  exact hboth.1.le (hrange d ((mem_sortChunks d).mp hd)) (of_decide_eq_true hboth.2)

theorem build_ok {bus : UInt32} {map : MemoryMap} :
    build chunks bus = .ok map ↔
      ((∀ chunk ∈ chunks, chunk.Covered) ∧ chunks.Pairwise Apart) ∧
        map = ⟨(sortChunks chunks).toArray, bus, #[]⟩ := by
  have hcovered : checkChunks (sortChunks chunks) = .ok () ↔ ∀ chunk ∈ chunks, chunk.Covered := by
    rw [checkChunks_ok]
    exact forall_congr' fun chunk => imp_congr_left (mem_sortChunks chunk)
  have hapart (h : ∀ chunk ∈ chunks, chunk.Covered) :
      checkDisjoint (sortChunks chunks) = .ok () ↔ chunks.Pairwise Apart := by
    rw [checkDisjoint_ok fun chunk hchunk => (h chunk ((mem_sortChunks chunk).mp hchunk)).filled]
    exact pairwise_sortChunks fun chunk hchunk => (h chunk hchunk).filled
  simp only [build]
  constructor
  · intro h
    split at h
    · cases h
    · rename_i hchunks
      split at h
      · cases h
      · rename_i hdisjoint
        have hall := hcovered.mp hchunks
        exact ⟨⟨hall, (hapart hall).mp hdisjoint⟩, (Except.ok.inj h).symm⟩
  · rintro ⟨⟨hall, hpairs⟩, rfl⟩
    rw [hcovered.mpr hall]
    simp only [(hapart hall).mpr hpairs]

theorem build_singleton (bus : UInt32) {chunk : Chunk} (hfilled : chunk.start < chunk.stop)
    (hbanks : (chunk.backing.isBanked && chunk.backing.buffers.isEmpty) = false)
    (hbuffers : ∀ data ∈ chunk.backing.buffers, chunk.needed ≤ data.size) :
    build [chunk] bus = .ok ⟨#[chunk], bus, #[]⟩ := by
  have hsorted : sortChunks [chunk] = [chunk] := List.mergeSort_singleton _
  have hcovered : chunk.Covered := by
    refine ⟨hfilled, fun hbanked hnone => ?_, hbuffers⟩
    rw [hbanked, hnone] at hbanks
    cases hbanks
  refine build_ok.mpr ⟨⟨List.forall_mem_singleton.mpr hcovered, List.pairwise_singleton _ _⟩, ?_⟩
  rw [hsorted]

theorem sound_build {model : Model} {map : MemoryMap} (h : build chunks model.addressMask = .ok map) :
    map.Sound := by
  obtain ⟨⟨hcovered, hapart⟩, rfl⟩ := build_ok.mp h
  have hfilled (chunk : Chunk) (hchunk : chunk ∈ chunks) := (hcovered chunk hchunk).filled
  exact ⟨bus_of_model model, (pairwise_sortChunks hfilled).mpr hapart, fun chunk hchunk =>
    hfilled chunk ((mem_sortChunks chunk).mp hchunk)⟩

end MemoryMap

end Dynarec68k
