import Dynarec68k.Board.Assemble
import Dynarec68k.Files.Store
import Dynarec68k.Proofs.StoredBytes

namespace Dynarec68k

open MemoryMap Chunk

variable {map : MemoryMap} {bank index : Nat} {x : UInt32} {data : ByteArray}

theorem Chunk.index?_lt {chunk : Chunk} (hx : chunk.contains x = true)
    (h : chunk.index? x = some index) : index < chunk.needed := by
  obtain ⟨hstart, hstop⟩ := contains_iff.mp hx
  have hperiod : (chunk.offset x).toNat < chunk.period := by
    have hspan : (chunk.offset x).toNat ≤ x.toNat - chunk.start.toNat := by
      rw [offset, UInt32.toNat_and, ← UInt32.toNat_sub_of_le x chunk.start hstart]
      exact Nat.and_le_left
    have hmask : (chunk.offset x).toNat ≤ chunk.mask.toNat := by
      rw [offset, UInt32.toNat_and]
      exact Nat.and_le_right
    rw [UInt32.le_iff_toNat_le] at hstart
    rw [UInt32.lt_iff_toNat_lt] at hstop
    rw [period]
    omega
  rw [index?] at h
  rw [needed]
  split at h
  · split at h
    · cases h
    · rw [if_pos ‹_›, ← Option.some.inj h]
      omega
  · rw [if_neg ‹_›, ← Option.some.inj h]
    exact hperiod

namespace MemoryMap

theorem find?_eq_some (hapart : map.chunks.toList.Pairwise fun c d => c.stop ≤ d.start)
    {i : Fin map.chunks.size} :
    map.find? x = some i ↔ (map.chunk i).contains (x &&& map.addressMask) = true := by
  rw [find?, Array.findFinIdx?_eq_some_iff]
  refine ⟨fun h => h.1, fun h => ⟨h, fun j hj hcontains => ?_⟩⟩
  have hle : (map.chunk j).stop ≤ (map.chunk i).start :=
    List.pairwise_iff_getElem.mp hapart j i j.isLt i.isLt hj
  exact apart_of_le hle _ ⟨hcontains, h⟩

theorem findIdx?_contains {chunks : List Chunk} (h : chunks.Pairwise fun c d => c.stop ≤ d.start)
    (hfilled : ∀ chunk ∈ chunks, chunk.start < chunk.stop) (x : UInt32) :
    chunks.findIdx? (fun chunk => chunk.contains x) =
      let before := chunks.takeWhile fun chunk => decide (chunk.start ≤ x)
      before.getLast?.bind fun chunk =>
        if x < chunk.stop then some (before.length - 1) else none := by
  induction h with
  | nil => rfl
  | @cons first rest hfirst _ ih =>
    obtain ⟨hfilled, hrest⟩ := List.forall_mem_cons.mp hfilled
    by_cases hstart : first.start ≤ x
    · rw [List.takeWhile_cons, if_pos (decide_eq_true hstart), List.findIdx?_cons, ih hrest]
      by_cases hstop : x < first.stop
      · -- The ranges behind it start later.
        have hnone : rest.takeWhile (fun chunk => decide (chunk.start ≤ x)) = [] := by
          cases rest with
          | nil => rfl
          | cons second =>
            have hlater := UInt32.lt_of_lt_of_le hstop (hfirst second List.mem_cons_self)
            exact List.takeWhile_cons_of_neg (by simpa using hlater)
        rw [if_pos (contains_iff.mpr ⟨hstart, hstop⟩), hnone]
        exact (if_pos hstop).symm
      · rw [if_neg fun hinside => hstop (contains_iff.mp hinside).2]
        cases rest.takeWhile fun chunk => decide (chunk.start ≤ x) with
        | nil => exact (if_neg hstop).symm
        | cons second more =>
          simp only [List.getLast?_cons_cons, List.length_cons, Nat.add_sub_cancel]
          cases (second :: more).getLast? with
          | none => rfl
          | some last =>
            simp only [Option.bind_some]
            split <;> rfl
    · rw [List.takeWhile_cons, if_neg (by simpa using hstart)]
      have hbefore : ∀ chunk ∈ first :: rest, x < chunk.start :=
        List.forall_mem_cons.mpr ⟨UInt32.not_le.mp hstart, fun chunk hchunk =>
          UInt32.lt_of_lt_of_le (UInt32.lt_trans (UInt32.not_le.mp hstart) hfilled)
            (hfirst chunk hchunk)⟩
      refine List.findIdx?_eq_none_iff.mpr fun chunk hchunk => Bool.eq_false_iff.mpr fun hinside => ?_
      exact UInt32.not_le.mpr (hbefore chunk hchunk) (contains_iff.mp hinside).1

/-- Ranges of an accepted map are found by bisection: the only one that an address can be in is the
last one that does not start behind it. -/
theorem find?_eq_last (hapart : map.chunks.toList.Pairwise fun c d => c.stop ≤ d.start)
    (hfilled : ∀ chunk ∈ map.chunks.toList, chunk.start < chunk.stop) :
    (map.find? x).map Fin.val =
      let before := map.chunks.toList.takeWhile fun chunk =>
        decide (chunk.start ≤ x &&& map.addressMask)
      before.getLast?.bind fun chunk =>
        if x &&& map.addressMask < chunk.stop then some (before.length - 1) else none := by
  rw [← findIdx?_contains hapart hfilled, ← List.findIdx?_toArray, Array.toArray_toList,
    Array.findIdx?_eq_map_findFinIdx?_val]
  rfl

theorem findStart?_chunk (hapart : map.chunks.toList.Pairwise fun c d => c.stop ≤ d.start)
    (hfilled : ∀ chunk ∈ map.chunks.toList, chunk.start < chunk.stop) (i : Fin map.chunks.size) :
    map.findStart? (map.chunk i).start = some i := by
  rw [findStart?, Array.findFinIdx?_eq_some_iff]
  refine ⟨beq_self_eq_true _, fun j hj hstart => ?_⟩
  have hle : (map.chunk j).stop ≤ (map.chunk i).start :=
    List.pairwise_iff_getElem.mp hapart j i j.isLt i.isLt hj
  have hlt := hfilled (map.chunk j) (Array.getElem_mem_toList j.isLt)
  rw [← eq_of_beq hstart] at hle
  exact UInt32.not_le.mpr hlt hle

section

variable {f : Chunk → Chunk}

theorem size_modifyChunk (map : MemoryMap) (f : Chunk → Chunk) (i : Nat) :
    map.chunks.size = (map.modifyChunk i f).chunks.size :=
  (Array.size_modify ..).symm

theorem chunk_modifyChunk (i : Nat) (j : Fin map.chunks.size) :
    (map.modifyChunk i f).chunk (j.cast (map.size_modifyChunk f i)) =
      if i = j then f (map.chunk j) else map.chunk j :=
  Array.getElem_modify ..

theorem find?_modifyChunk (hapart : map.chunks.toList.Pairwise fun c d => c.stop ≤ d.start)
    (hf : ∀ chunk, ((f chunk).start, (f chunk).stop) = (chunk.start, chunk.stop)) (i : Nat)
    {j : Fin map.chunks.size} (hj : map.find? x = some j) :
    (map.modifyChunk i f).find? x = some (j.cast (map.size_modifyChunk f i)) := by
  have hbounds : ((map.modifyChunk i f).chunk (j.cast (map.size_modifyChunk f i))).contains =
      (map.chunk j).contains := by
    rw [chunk_modifyChunk]
    split
    · obtain ⟨hstart, hstop⟩ := Prod.mk.inj (hf (map.chunk j))
      funext x
      rw [contains, hstart, hstop, ← contains]
    · rfl
  have hpairwise (list : List Chunk) :
      (list.map fun chunk => (chunk.start, chunk.stop)).Pairwise (fun c d => c.2 ≤ d.1) ↔
        list.Pairwise fun c d => c.stop ≤ d.start :=
    List.pairwise_map
  rw [find?_eq_some hapart] at hj
  rw [find?_eq_some, hbounds]
  · exact hj
  · rw [← hpairwise, modifyChunk, map_chunks_modify _ _ i hf, hpairwise]
    exact hapart

end

theorem read8_found {i : Fin map.chunks.size} (hi : map.find? x = some i)
    (hread : (map.chunk i).access.read = true) (hplain : (map.chunk i).backing.isDevice = false) :
    map.read8 x = ((map.chunk i).get (x &&& map.addressMask), map) := by
  rw [read8]
  simp only [find?_onBus, hi]
  change (if (map.chunk i).access.read = true then _ else _) = _
  rw [if_pos hread]
  split
  · rename_i hdevice
    change (map.chunk i).backing = _ at hdevice
    rw [hdevice] at hplain
    cases hplain
  · rfl

theorem read8_hits {i : Fin map.chunks.size} (hi : map.find? x = some i)
    (hread : (map.chunk i).access.read = true)
    (hindex : (map.chunk i).index? (x &&& map.addressMask) = some index)
    (hdata : (map.chunk i).backing.bytes? = some data) (hroom : index < data.size) :
    data.data[index]? = some (map.read8 x).1 := by
  rw [read8_found hi hread (Backing.plain_of_bytes? hdata), Chunk.get, hindex]
  dsimp only
  rw [Backing.get, hdata]
  dsimp only
  rw [dif_pos hroom]
  exact Array.getElem?_eq_getElem hroom

theorem selectBank_banked {start : UInt32} {i : Fin map.chunks.size}
    (hi : map.findStart? start = some i) {banks : Array ByteArray} {active : Nat}
    (hbacking : (map.chunk i).backing = .banked banks active) (hbank : bank < banks.size) :
    ∃ changed, map.selectBank start bank = .ok (changed,
      map.modifyChunk i fun chunk => { chunk with backing := .banked banks bank }) := by
  have hbanked : map.chunks[i].backing = .banked banks active := hbacking
  simp only [selectBank, hi, hbanked, if_neg (Nat.not_le.mpr hbank)]
  rw [modifyChunk, ← set_eq_modify i rfl]
  split
  · rename_i hactive
    refine ⟨none, ?_⟩
    have hself : { map.chunks[i] with backing := .banked banks bank } = map.chunks[i] := by
      rw [← hactive, ← hbanked]
    rw [hself, Fin.getElem_fin, Array.set_getElem_self]
  · exact ⟨_, rfl⟩

theorem read8_selectBank (hapart : map.chunks.toList.Pairwise fun c d => c.stop ≤ d.start)
    (hcovered : ∀ chunk ∈ map.chunks.toList, chunk.Covered) {i : Fin map.chunks.size}
    (hi : map.find? x = some i) (hread : (map.chunk i).access.read = true)
    (hindex : (map.chunk i).index? (x &&& map.addressMask) = some index)
    (hbanked : (map.chunk i).backing.isBanked = true)
    (hdata : (map.chunk i).backing.buffers[bank]? = some data) :
    ∃ changed map', map.selectBank (map.chunk i).start bank = .ok (changed, map') ∧
      data.data[index]? = some (map'.read8 x).1 := by
  have hmem : map.chunk i ∈ map.chunks.toList := Array.getElem_mem_toList i.isLt
  have hinside := (find?_eq_some hapart).mp hi
  have hroom := Nat.lt_of_lt_of_le (index?_lt hinside hindex)
    ((hcovered _ hmem).sizes data (List.mem_of_getElem? hdata))
  obtain ⟨banks, active, hbacking⟩ : ∃ banks active, (map.chunk i).backing = .banked banks active := by
    cases hbacking : (map.chunk i).backing with
    | banked banks active => exact ⟨banks, active, rfl⟩
    | _ =>
      rw [hbacking] at hbanked
      cases hbanked
  have hbank : banks[bank]? = some data := by
    rw [hbacking] at hdata
    exact Array.getElem?_toList.symm.trans hdata
  obtain ⟨changed, hselected⟩ := selectBank_banked
    (findStart?_chunk hapart (fun chunk hchunk => (hcovered chunk hchunk).filled) i) hbacking
    (Array.getElem?_eq_some_iff.mp hbank).1
  have hfind := find?_modifyChunk (f := fun chunk => { chunk with backing := .banked banks bank })
    hapart (fun _ => rfl) i hi
  refine ⟨changed, _, hselected, read8_hits hfind ?_ ?_ ?_ hroom⟩
  all_goals rw [chunk_modifyChunk, if_pos rfl]
  · exact hread
  · exact hindex
  · exact hbank

end MemoryMap

namespace Board

theorem size_copySlice (bytes dest : ByteArray) {offset : Nat} (h : offset ≤ dest.size) :
    (bytes.copySlice 0 dest offset bytes.size).size = max dest.size (offset + bytes.size) := by
  rw [← ByteArray.size_data] at h ⊢
  simp only [ByteArray.copySlice, Array.size_append, Array.size_extract, ByteArray.size_data] at h ⊢
  omega

theorem size_zeros (size : Nat) : (zeros size).size = size := by
  fun_induction zeros with
  | case1 => rfl
  | case2 size hsize half whole heven ih =>
    rw [size_copySlice half half (Nat.le_refl _), ih]
    omega
  | case3 size hsize half whole hodd ih =>
    rw [ByteArray.size_push, size_copySlice half half (Nat.le_refl _), ih]
    omega

theorem Region.size_buffer {region : Region} {base : String} {store store' : FileStore}
    (h : (ExceptT.run (region.buffer base)).runOn store = (.ok data, store')) :
    data.size = region.size := by
  have hread (path : String) (next : Except FileError ByteArray → Assembly ByteArray) :
      (ExceptT.run (liftM (Script.readFile path) >>= next)).runOn store =
        (ExceptT.run (next (store.read path))).runOn store := rfl
  unfold buffer at h
  split at h
  · cases h
    exact size_zeros _
  · dsimp only at h
    rw [hread] at h
    split at h
    · cases h
    · split at h
      · cases h
      · cases h
        rw [size_copySlice _ _ (by rw [size_zeros]; omega), size_zeros]
        omega

end Board

/-- A memory map is made of ranges if each of them has addresses, a bank if it is banked and buffers
that cover it, and no two of them share an address, in whatever order they come. -/
theorem build_accepts_sound_maps (chunks : List Chunk) (bus : UInt32) :
    ((∃ map, build chunks bus = .ok map) ↔
      (∀ chunk ∈ chunks, chunk.start < chunk.stop ∧
        (chunk.backing.isBanked = true → chunk.backing.buffers ≠ []) ∧
        ∀ data ∈ chunk.backing.buffers,
          let span := min (chunk.stop.toNat - chunk.start.toNat) (chunk.mask.toNat + 1)
          (if chunk.access.laneOnly then (span + 1) / 2 else span) ≤ data.size) ∧
      chunks.Pairwise fun c d => ∀ x, ¬(c.contains x = true ∧ d.contains x = true)) ∧
    (∀ map, build chunks bus = .ok map →
      map.chunks.toList.Perm chunks ∧
      (∀ x i, map.find? x = some i ↔ (map.chunk i).contains (x &&& bus) = true) ∧
      ∀ x i index, map.find? x = some i → (map.chunk i).access.read = true →
        (map.chunk i).index? (x &&& bus) = some index →
          (∀ data, (map.chunk i).backing.bytes? = some data →
            data.data[index]? = some (map.read8 x).1) ∧
          ((map.chunk i).backing.isBanked = true →
            ∀ bank data, (map.chunk i).backing.buffers[bank]? = some data →
              ∃ changed map', map.selectBank (map.chunk i).start bank = .ok (changed, map') ∧
                data.data[index]? = some (map'.read8 x).1)) ∧
    ∀ (region : Board.Region) (base : String) (store store' : FileStore) (data : ByteArray),
      (ExceptT.run (region.buffer base)).runOn store = (.ok data, store') →
        data.size = (mk region.start region.stop (region.mask.getD 0xFFFFFFFF)
          region.access (.buffer data)).needed := by
  refine ⟨?_, fun map h => ?_, fun region base store store' data h => ?_⟩
  · have hcovered (chunk : Chunk) : chunk.Covered ↔ chunk.start < chunk.stop ∧
        (chunk.backing.isBanked = true → chunk.backing.buffers ≠ []) ∧
        ∀ data ∈ chunk.backing.buffers, chunk.needed ≤ data.size :=
      ⟨fun h => ⟨h.filled, h.banks, h.sizes⟩, fun h => ⟨h.1, h.2.1, h.2.2⟩⟩
    simp only [build_ok, exists_and_left, exists_eq, and_true, hcovered]
    exact Iff.rfl
  · obtain ⟨⟨hcovered, hapart⟩, rfl⟩ := build_ok.mp h
    have hsorted := (pairwise_sortChunks fun chunk hchunk =>
      (hcovered chunk hchunk).filled).mpr hapart
    have hall (chunk : Chunk) (hchunk : chunk ∈ sortChunks chunks) : chunk.Covered :=
      hcovered chunk ((mem_sortChunks chunk).mp hchunk)
    refine ⟨List.mergeSort_perm .., fun x i => find?_eq_some hsorted,
      fun x i index hi hread hindex => ⟨fun data hdata => ?_, fun hbanked bank data hdata => ?_⟩⟩
    · refine read8_hits hi hread hindex hdata ?_
      have hinside := (find?_eq_some hsorted).mp hi
      refine Nat.lt_of_lt_of_le (index?_lt hinside hindex) ?_
      refine (hall _ (List.getElem_mem i.isLt)).sizes data ?_
      rw [Backing.bytes?_eq] at hdata
      exact List.mem_of_getElem? hdata
    · exact read8_selectBank hsorted hall hi hread hindex hbanked hdata
  · rw [Board.Region.size_buffer h, Board.Region.size]
    change _ = min _ _
    cases region.mask with
    | none =>
      have hstop := region.stop.toNat_lt
      refine (Nat.min_eq_left ?_).symm
      change region.stop.toNat - region.start.toNat ≤ 0xFFFFFFFF + 1
      omega
    | some mask => rfl

end Dynarec68k
