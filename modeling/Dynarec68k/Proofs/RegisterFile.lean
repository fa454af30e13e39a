import Dynarec68k.Cpu.Run
import Mathlib.Tactic.IntervalCases

namespace Dynarec68k

open Host

variable {n offset : Nat} {size : Size} (file : RegisterFile) (value : UInt32)

/-- Byte `n` of a long, counted from the low end. -/
def byteOf (value : UInt32) (n : Nat) : UInt8 :=
  UInt8.ofBitVec (value.toBitVec.extractLsb' (8 * n) 8)

theorem toUInt8_eq_byteOf : value.toUInt8 = byteOf value 0 := by
  apply UInt8.eq_of_toBitVec_eq
  ext i hi
  simp [byteOf]

theorem shiftRight_toUInt8_eq_byteOf :
    (value >>> 8).toUInt8 = byteOf value 1 ∧ (value >>> 16).toUInt8 = byteOf value 2 ∧
      (value >>> 24).toUInt8 = byteOf value 3 := by
  refine ⟨?_, ?_, ?_⟩
  all_goals
    apply UInt8.eq_of_toBitVec_eq
    ext i hi
    simp [byteOf]

theorem eq_of_byteOf {a b : UInt32} (h : ∀ n < 4, byteOf a n = byteOf b n) : a = b := by
  apply UInt32.eq_of_toBitVec_eq
  ext i hi
  have hbyte := congrArg (fun x => x.toBitVec.getLsbD (i % 8)) (h (i / 8) (by omega))
  have hlt : i % 8 < 8 := Nat.mod_lt _ (by decide)
  have hsplit : 8 * (i / 8) + i % 8 = i := Nat.div_add_mod i 8
  simp only [byteOf, BitVec.getLsbD_extractLsb', hlt, hsplit, decide_true, Bool.true_and] at hbyte
  simpa [BitVec.getLsbD_eq_getElem hi] using hbyte

theorem byteOf_merge (size : Size) (old value : UInt32) (hn : n < 4) :
    byteOf (merge size old value) n = if n < size.bytes then byteOf value n else byteOf old n := by
  apply UInt8.eq_of_toBitVec_eq
  ext i hi
  cases size <;> interval_cases n <;> interval_cases i <;>
    simp [byteOf, merge, Size.bytes, Size.mask]

theorem byteOf_and_mask (size : Size) (value : UInt32) (hn : n < 4) :
    byteOf (value &&& size.mask) n = if n < size.bytes then byteOf value n else 0 := by
  apply UInt8.eq_of_toBitVec_eq
  ext i hi
  cases size <;> interval_cases n <;> interval_cases i <;>
    simp [byteOf, Size.bytes, Size.mask]

theorem and_mask_long (x : UInt32) : x &&& Size.long.mask = x := by
  apply eq_of_byteOf
  intro i hi
  rw [byteOf_and_mask _ _ hi, if_pos (show i < Size.long.bytes from hi)]

namespace RegisterFile

theorem ext_byteAt {file other : RegisterFile}
    (h : ∀ k < registerFileSize, file.byteAt k = other.byteAt k) : file = other := by
  obtain ⟨bytes⟩ := file
  obtain ⟨others⟩ := other
  congr 1
  ext k hk
  have hbyte := h k hk
  simp only [byteAt, hk, dif_pos] at hbyte
  exact congrArg UInt8.toNat hbyte

theorem byteAt_setByte (offset k : Nat) (value : UInt8) (h : offset < registerFileSize) :
    (file.setByte offset value).byteAt k = if k = offset then value else file.byteAt k := by
  by_cases hk : k < registerFileSize
  · simp only [byteAt, setByte, hk, dif_pos]
    rw [Vector.getElem_setIfInBounds hk]
    simp only [eq_comm]
  · have hne : k ≠ offset := by omega
    simp [byteAt, hk, hne]

/-- The value of a size made of the bytes from `offset` on. -/
def part (file : RegisterFile) (offset : Nat) (size : Size) : UInt32 :=
  (file.read offset size).getD 0

/-- Store a value of a size at an offset that lies inside the file. -/
def put (file : RegisterFile) (offset : Nat) (size : Size) (value : UInt32) : RegisterFile :=
  (file.write? offset size value).getD file

theorem read_eq_part (h : offset + size.bytes ≤ registerFileSize) :
    file.read offset size = some (file.part offset size) := by
  cases size <;> simp [part, read, h]

theorem write?_eq_put (h : offset + size.bytes ≤ registerFileSize) :
    file.write? offset size value = some (file.put offset size value) := by
  cases size <;> simp [put, write?, h]

theorem byteOf_part (h : offset + size.bytes ≤ registerFileSize) (hn : n < 4) :
    byteOf (file.part offset size) n = if n < size.bytes then file.byteAt (offset + n) else 0 := by
  apply UInt8.eq_of_toBitVec_eq
  ext i hi
  cases size <;> simp only [part, read, h, if_true, Option.getD_some] <;> interval_cases n <;>
    interval_cases i <;> simp [byteOf, Size.bytes]

theorem byteAt_put (h : offset + size.bytes ≤ registerFileSize) (k : Nat) :
    (file.put offset size value).byteAt k =
      if offset ≤ k ∧ k < offset + size.bytes then byteOf value (k - offset)
      else file.byteAt k := by
  obtain ⟨hone, htwo, hthree⟩ := shiftRight_toUInt8_eq_byteOf value
  cases size with
  | byte =>
    simp only [Size.bytes] at h
    simp only [put, write?, Size.bytes, h, if_true, Option.getD_some, toUInt8_eq_byteOf]
    rw [byteAt_setByte _ _ _ _ (by omega)]
    grind
  | word =>
    simp only [Size.bytes] at h
    simp only [put, write?, Size.bytes, h, if_true, Option.getD_some, toUInt8_eq_byteOf value,
      hone]
    rw [byteAt_setByte _ _ _ _ (by omega), byteAt_setByte _ _ _ _ (by omega)]
    grind
  | long =>
    simp only [Size.bytes] at h
    simp only [put, write?, Size.bytes, h, if_true, Option.getD_some, toUInt8_eq_byteOf value,
      hone, htwo, hthree]
    rw [byteAt_setByte _ _ _ _ (by omega), byteAt_setByte _ _ _ _ (by omega),
      byteAt_setByte _ _ _ _ (by omega), byteAt_setByte _ _ _ _ (by omega)]
    grind

theorem general_eq_part (h : n < 16) : file.general n = file.part (generalOffset n) .long := by
  simp only [general, d, a, long, part, generalOffset, dataOffset, addressOffset]
  split
  · rw [Nat.mod_eq_of_lt (by omega), Nat.zero_add]
  · rw [show 0x20 + 4 * min (n - 8) 8 = 4 * n by omega]

theorem byteOf_general (h : n < 16) {i : Nat} (hi : i < 4) :
    byteOf (file.general n) i = file.byteAt (4 * n + i) := by
  have hbytes : Size.long.bytes = 4 := rfl
  have hoffset : generalOffset n = 4 * n := rfl
  rw [general_eq_part _ h, byteOf_part _ (by rw [hoffset, hbytes, registerFileSize]; omega) hi]
  exact if_pos hi

theorem setGeneral_eq_put (h : n < 16) :
    file.setGeneral n value = file.put (generalOffset n) .long value := by
  simp only [setGeneral, setD, setA, setLong, put, generalOffset, dataOffset, addressOffset]
  split
  · rw [Nat.mod_eq_of_lt (by omega), Nat.zero_add]
  · rw [show 0x20 + 4 * min (n - 8) 8 = 4 * n by omega]

theorem byteAt_setGeneral (h : n < 16) (k : Nat) :
    (file.setGeneral n value).byteAt k =
      if k / 4 = n then byteOf value (k % 4) else file.byteAt k := by
  have hoffset : generalOffset n = 4 * n := rfl
  have hbytes : Size.long.bytes = 4 := rfl
  rw [setGeneral_eq_put _ _ h,
    byteAt_put _ _ (by rw [hoffset, hbytes, registerFileSize]; omega)]
  by_cases hk : k / 4 = n
  · rw [if_pos hk, if_pos (by omega), show k - generalOffset n = k % 4 by omega]
  · rw [if_neg hk, if_neg (by omega)]

end RegisterFile

end Dynarec68k
