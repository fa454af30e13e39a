import Dynarec68k.Proofs.AcceptedMaps
import Dynarec68k.Proofs.AddressErrors

namespace Dynarec68k

open MemoryMap UInt32

namespace Chunk

/-- The word at an address on the bus, as data is read. -/
def wordAt (chunk : Chunk) (x : UInt32) : UInt16 :=
  (chunk.get x).toUInt16 <<< 8 ||| (chunk.get (x + 1)).toUInt16

/-- Whole words of a buffer stand behind the range, from an even address on. -/
structure Wordwise (chunk : Chunk) (data : ByteArray) : Prop where
  bytes : chunk.backing.bytes? = some data
  room : chunk.needed ≤ data.size
  lanes : chunk.access.laneOnly = false
  start : chunk.start &&& 1 = 0
  mask : chunk.mask &&& 1 = 1

namespace Wordwise

variable {chunk : Chunk} {data : ByteArray} (h : chunk.Wordwise data) {x : UInt32}
include h

theorem index?_eq (x : UInt32) : chunk.index? x = some (chunk.offset x).toNat := by
  rw [index?, h.lanes]
  rfl

theorem covered : chunk.needed ≤ chunk.backing.room := by
  rw [Backing.room, h.bytes]
  exact h.room

theorem byteAt (hx : chunk.contains x = true) :
    data.data[(chunk.offset x).toNat]? = some (chunk.get x) := by
  have hlt := Nat.lt_of_lt_of_le (index?_lt hx (h.index?_eq x)) h.room
  have hget : chunk.get x = data[(chunk.offset x).toNat] := by
    rw [get, h.index?_eq]
    dsimp only
    rw [Backing.get, h.bytes]
    exact dif_pos hlt
  rw [hget]
  exact Array.getElem?_eq_getElem hlt

theorem wordOf_eq (hx : x &&& 1 = 0) (hfirst : chunk.contains x = true)
    (hsecond : chunk.contains (x + 1) = true) :
    wordOf data (chunk.offset x).toNat = some (chunk.wordAt x) := by
  have hlow := h.byteAt hsecond
  rw [offset_succ hx h.start h.mask] at hlow
  rw [wordOf, h.byteAt hfirst, hlow]
  rfl

theorem fetchFrom_eq (hx : x &&& 1 = 0) (hstart : chunk.start ≤ x) (count : Nat) :
    fetchFrom chunk data x count =
      (List.range (min count ((chunk.stop.toNat - x.toNat) / 2))).map fun k =>
        chunk.wordAt (x + 2 * ofNat k) := by
  induction count generalizing x with
  | zero => rw [Nat.zero_min]; rfl
  | succ count ih =>
    have hsucc := toNat_succ_of_even hx
    rw [fetchFrom]
    by_cases hend : chunk.stop ≤ x + 1
    · rw [if_pos (.inr hend)]
      rw [le_iff_toNat_le, hsucc] at hend
      have hnone : (chunk.stop.toNat - x.toNat) / 2 = 0 := by omega
      rw [hnone, Nat.min_zero]
      rfl
    · have hinside : ¬(x < chunk.start ∨ chunk.stop ≤ x + 1) :=
        not_or.mpr ⟨UInt32.not_lt.mpr hstart, hend⟩
      rw [UInt32.not_le, UInt32.lt_iff_toNat_lt, hsucc] at hend
      have hnext : (x + 2).toNat = x.toNat + 2 := by
        have hlt := chunk.stop.toNat_lt
        rw [UInt32.toNat_add]
        exact Nat.mod_eq_of_lt (by change x.toNat + 2 < 2 ^ 32; omega)
      have heven : (x + 2) &&& 1 = 0 := by
        rw [and_one_eq_zero] at hx ⊢
        omega
      rw [le_iff_toNat_le] at hstart
      have hfirst : chunk.contains x = true := by
        rw [contains_iff, le_iff_toNat_le, lt_iff_toNat_lt]
        omega
      have hsecond : chunk.contains (x + 1) = true := by
        rw [contains_iff, le_iff_toNat_le, lt_iff_toNat_lt, hsucc]
        omega
      have hrest := ih heven (by rw [le_iff_toNat_le]; omega)
      have hcount : min (count + 1) ((chunk.stop.toNat - x.toNat) / 2) =
          min count ((chunk.stop.toNat - (x + 2).toNat) / 2) + 1 := by omega
      have hshift (k : Nat) : x + 2 + 2 * ofNat k = x + 2 * ofNat (k + 1) := by
        rw [UInt32.ofNat_add, UInt32.mul_add, UInt32.add_assoc, UInt32.add_comm 2]
        rfl
      rw [if_neg hinside, h.wordOf_eq hx hfirst hsecond, hrest, hcount, List.range_succ_eq_map,
        List.map_cons, List.map_map]
      simp only [hshift, Function.comp_def, Nat.succ_eq_add_one, Option.map_some, Option.getD_some]
      rw [show (2 : UInt32) * UInt32.ofNat 0 = 0 from rfl, UInt32.add_zero]

end Wordwise

end Chunk

namespace MemoryMap

theorem onBus_add {bus x : UInt32} {lines : Nat} (hbus : bus.toNat + 1 = 2 ^ lines) {k : Nat}
    (hk : (x &&& bus).toNat + 2 * k < 2 ^ lines) :
    (x + 2 * ofNat k) &&& bus = (x &&& bus) + 2 * ofNat k ∧
      ((x &&& bus) + 2 * ofNat k).toNat = (x &&& bus).toNat + 2 * k := by
  have hle : 2 ^ lines ≤ 2 ^ 32 := hbus ▸ Nat.succ_le_of_lt bus.toNat_lt
  have hlines : 2 ^ lines ∣ 2 ^ 32 :=
    Nat.pow_dvd_pow 2 ((Nat.pow_le_pow_iff_right Nat.one_lt_two).mp hle)
  have hmod (y : UInt32) : (y &&& bus).toNat = y.toNat % 2 ^ lines := by
    rw [UInt32.toNat_and, Nat.eq_sub_of_add_eq hbus, Nat.and_two_pow_sub_one_eq_mod]
  have hdouble : (2 * ofNat k).toNat = 2 * k := by
    rw [UInt32.toNat_mul, UInt32.toNat_ofNat', Nat.mul_mod_mod]
    exact Nat.mod_eq_of_lt (by change 2 * k < 2 ^ 32; omega)
  have hsum : ((x &&& bus) + 2 * ofNat k).toNat = (x &&& bus).toNat + 2 * k := by
    rw [UInt32.toNat_add, hdouble]
    exact Nat.mod_eq_of_lt (by omega)
  refine ⟨UInt32.toNat_inj.mp ?_, hsum⟩
  rw [hsum, hmod, hmod, UInt32.toNat_add, hdouble, Nat.mod_mod_of_dvd _ hlines, ← Nat.mod_add_mod,
    Nat.mod_eq_of_lt (by rwa [← hmod])]

section

variable {map : MemoryMap} (hapart : map.chunks.toList.Pairwise fun c d => c.stop ≤ d.start)
  {lines : Nat} (hbus : map.addressMask.toNat + 1 = 2 ^ lines) {x : UInt32} (hx : x &&& 1 = 0)
  {i : Fin map.chunks.size} (hi : map.find? x = some i)
  (hread : (map.chunk i).access.read = true)
  (hstop : (map.chunk i).stop.toNat ≤ map.addressMask.toNat + 1) {data : ByteArray}
  (hwords : (map.chunk i).Wordwise data)
include hapart hbus hx hi hread hstop hwords

theorem read16_ahead {k : Nat}
    (hk : k < ((map.chunk i).stop.toNat - (x &&& map.addressMask).toNat) / 2) :
    (map.read16 (x + 2 * ofNat k)).1 =
      (map.chunk i).wordAt ((x &&& map.addressMask) + 2 * ofNat k) := by
  obtain ⟨hon, hsum⟩ := onBus_add hbus (x := x) (k := k) (by omega)
  have hinside := Chunk.contains_iff.mp ((find?_eq_some hapart).mp hi)
  have heven : (x &&& map.addressMask) + 2 * ofNat k &&& 1 = 0 := by
    have hfirst := and_one_of_and hx map.addressMask
    rw [and_one_eq_zero] at hfirst ⊢
    omega
  have hfound : map.find? (x + 2 * ofNat k) = some i := by
    rw [find?_eq_some hapart, hon, Chunk.contains_iff]
    simp only [le_iff_toNat_le, lt_iff_toNat_lt] at hinside ⊢
    omega
  have hword : (x + 2 * ofNat k) &&& map.addressMask &&& 0xFFFFFFFE =
      (x + 2 * ofNat k) &&& map.addressMask := by
    rw [hon, clear_lowest_of_even heven]
  have hagain : map.find? ((x + 2 * ofNat k) &&& map.addressMask &&& 0xFFFFFFFE) =
      some i := by
    rw [hword, find?_onBus, hfound]
  have hplain := Backing.plain_of_room (Nat.lt_of_lt_of_le
    (Chunk.index?_lt (Chunk.contains_iff.mpr hinside) (hwords.index?_eq _)) hwords.covered)
  rw [read16_found hagain hread hplain, hword, hon]
  rfl

theorem fetchSlots_wordwise (slots : List UInt16) :
    let n := min slots.length (((map.chunk i).stop.toNat - (x &&& map.addressMask).toNat) / 2)
    map.fetchSlots x slots =
      (n, (List.range n).map (fun k => (map.read16 (x + 2 * ofNat k)).1) ++
        slots.drop n) := by
  intro n
  have hinside := Chunk.contains_iff.mp ((find?_eq_some hapart).mp hi)
  have hfetched : fetchFrom (map.chunk i) data (x &&& map.addressMask) slots.length =
      (List.range n).map fun k => (map.read16 (x + 2 * ofNat k)).1 := by
    rw [hwords.fetchFrom_eq (and_one_of_and hx map.addressMask) hinside.1]
    refine List.map_congr_left fun k hk => ?_
    have hlt := Nat.lt_of_lt_of_le (List.mem_range.mp hk) (Nat.min_le_right _ _)
    exact (read16_ahead hapart hbus hx hi hread hstop hwords hlt).symm
  rw [fetchSlots_eq, chunkAt?_eq, hi, Option.map_some, Option.map_some, Option.getD_some,
    hwords.bytes, Option.map_some, Option.getD_some, hfetched]
  simp only [List.length_map, List.length_range]

end

end MemoryMap

/-- The words that are fetched from a range are those that are read one by one, up to the end of the
range and through its repetitions, from the bank that is mapped. The slots behind them are left as
they are. The bus has all of its lower lines. -/
theorem fetchSlots_eq_reads {chunks : List Chunk} {bus : UInt32} {map : MemoryMap}
    (hbuild : build chunks bus = .ok map) {lines : Nat}
    (hbus : bus.toNat + 1 = 2 ^ lines) {x : UInt32} (hx : x &&& 1 = 0)
    {i : Fin map.chunks.size} (hi : map.find? x = some i)
    (hread : (map.chunk i).access.read = true) {data : ByteArray}
    (hdata : (map.chunk i).backing.bytes? = some data)
    (hlanes : (map.chunk i).access.laneOnly = false) (hstart : (map.chunk i).start &&& 1 = 0)
    (hmask : (map.chunk i).mask &&& 1 = 1) (hstop : (map.chunk i).stop.toNat ≤ bus.toNat + 1)
    (slots : List UInt16) :
    let n := min slots.length (((map.chunk i).stop.toNat - (x &&& bus).toNat) / 2)
    map.fetchSlots x slots =
      (n, (List.range n).map (fun k => (map.read16 (x + 2 * ofNat k)).1) ++
        slots.drop n) := by
  obtain ⟨⟨hcovered, hdisjoint⟩, rfl⟩ := build_ok.mp hbuild
  have hapart := (pairwise_sortChunks fun chunk hchunk =>
    (hcovered chunk hchunk).filled).mpr hdisjoint
  refine fetchSlots_wordwise hapart hbus hx hi hread hstop
    ⟨hdata, ?_, hlanes, hstart, hmask⟩ slots
  refine (hcovered _ ((mem_sortChunks _).mp (List.getElem_mem i.isLt))).sizes data ?_
  rw [Backing.bytes?_eq] at hdata
  exact List.mem_of_getElem? hdata

/-- Behind a bus without its second line, the second word is fetched and the first one read again. -/
theorem fetchSlots_ne_reads_without_line :
    let map : MemoryMap :=
      ⟨#[⟨0, 4, 3, ⟨true, false, false, false, false⟩, .buffer ⟨#[0, 1, 2, 3]⟩⟩], 5, #[]⟩
    build map.chunks.toList 5 = .ok map ∧
      map.fetchSlots 0 [0, 0] = (2, [0x0001, 0x0203]) ∧
      (map.read16 2).1 = 0x0001 := by
  refine ⟨build_singleton 5 (by decide) rfl fun data hdata => ?_, by decide +kernel,
    by decide +kernel⟩
  rw [List.mem_singleton.mp hdata]
  decide

theorem fetchSlots_eq_reads_repeating :
    (twofold 0xFFFFFF 15).fetchSlots 0x100003A (List.replicate 5 7) =
      (3, (List.range 3).map (fun k =>
        ((twofold 0xFFFFFF 15).read16 (0x100003A + 2 * ofNat k)).1) ++ [7, 7]) := by
  have hbus : (0xFFFFFF : UInt32).toNat + 1 = 2 ^ 24 := rfl
  refine fetchSlots_eq_reads (build_twofold 0xFFFFFF 15) hbus (by decide)
    (i := ⟨0, Nat.one_pos⟩) ?_ rfl rfl rfl rfl rfl (by decide) (List.replicate 5 7)
  exact (find?_eq_some (List.pairwise_singleton _ _)).mpr (by decide)

end Dynarec68k
