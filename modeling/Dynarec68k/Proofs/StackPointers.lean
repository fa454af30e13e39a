import Dynarec68k.Proofs.StoredBytes

namespace Dynarec68k

open Host RegisterFile

variable (file : RegisterFile) (n : Nat) (value : UInt32) (ccr : UInt8) (m : Nat) {offset : Nat}

namespace RegisterFile

theorem long_congr {file file' : RegisterFile}
    (hoffset : offset + Size.long.bytes ≤ registerFileSize)
    (h : ∀ i < 4, file'.byteAt (offset + i) = file.byteAt (offset + i)) :
    file'.long offset = file.long offset := by
  refine eq_of_byteOf fun n hn => ?_
  change byteOf (file'.part offset .long) n = byteOf (file.part offset .long) n
  rw [byteOf_part file' hoffset hn, byteOf_part file hoffset hn, h n hn]

theorem long_setLong (hoffset : offset + Size.long.bytes ≤ registerFileSize) :
    (file.setLong offset value).long offset = value := by
  refine eq_of_byteOf fun n hn => ?_
  change byteOf ((file.put offset .long value).part offset .long) n = _
  have hbytes : Size.long.bytes = 4 := rfl
  rw [byteOf_part _ hoffset hn, byteAt_put file value hoffset, if_pos (by omega),
    if_pos (by omega), Nat.add_sub_cancel_left]

theorem long_setLong_other {other : Nat} (hoffset : offset + Size.long.bytes ≤ registerFileSize)
    (hother : other + Size.long.bytes ≤ registerFileSize)
    (hapart : other + 4 ≤ offset ∨ offset + 4 ≤ other) :
    (file.setLong offset value).long other = file.long other := by
  refine long_congr hother fun i hi => ?_
  have hbytes : Size.long.bytes = 4 := rfl
  exact (byteAt_put file value hoffset _).trans (if_neg (by omega))

theorem a_fits : addressOffset + 4 * min n 8 + Size.long.bytes ≤ registerFileSize := by
  simp only [addressOffset, Size.bytes, registerFileSize]
  omega

theorem d_fits : dataOffset + 4 * (n % 8) + Size.long.bytes ≤ registerFileSize := by
  simp only [dataOffset, Size.bytes, registerFileSize]
  omega

theorem a_setA : (file.setA n value).a m = if min n 8 = min m 8 then value else file.a m := by
  split
  · rename_i h
    rw [a, ← h]
    exact long_setLong file value (a_fits n)
  · exact long_setLong_other file value (a_fits n) (a_fits m) (by omega)

theorem d_setA : (file.setA n value).d m = file.d m := by
  refine long_setLong_other file value (a_fits n) (d_fits m) (.inl ?_)
  simp only [addressOffset, dataOffset]
  omega

theorem setA_setA (value value' : UInt32) :
    (file.setA n value).setA n value' = file.setA n value' := by
  refine ext_byteAt fun k _ => ?_
  change ((file.put _ .long value).put _ .long value').byteAt k = (file.put _ .long value').byteAt k
  rw [byteAt_put _ _ (a_fits n), byteAt_put _ _ (a_fits n), byteAt_put _ _ (a_fits n)]
  split <;> rfl

theorem setA_self : file.setA n (file.a n) = file := by
  refine ext_byteAt fun k _ => ?_
  change (file.put _ .long (file.part _ .long)).byteAt k = _
  rw [byteAt_put _ _ (a_fits n)]
  split
  · rename_i hk
    have hbytes : Size.long.bytes = 4 := rfl
    rw [byteOf_part file (a_fits n) (by omega), if_pos (by omega), Nat.add_sub_cancel' hk.1]
  · rfl

theorem registers_congr {file file' : RegisterFile}
    (h : ∀ k < flagOffset .x, file'.byteAt k = file.byteAt k) (n : Nat) :
    file'.d n = file.d n ∧ file'.a n = file.a n := by
  refine ⟨long_congr (d_fits n) fun i hi => h _ ?_, long_congr (a_fits n) fun i hi => h _ ?_⟩
  · simp only [dataOffset, flagOffset]
    omega
  · simp only [addressOffset, flagOffset]
    omega

theorem byteAt_setCcr {k : Nat} (hk : k < flagOffset .x) :
    (file.setCcr ccr).byteAt k = file.byteAt k := by
  unfold setCcr
  induction Flag.all generalizing file with
  | nil => rfl
  | cons flag rest ih =>
    have hlow : flagOffset .x ≤ flagOffset flag := by cases flag <;> decide
    have hfits : flagOffset flag < registerFileSize := by cases flag <;> decide
    refine (ih _).trans ((byteAt_setByte file _ k _ hfits).trans (if_neg ?_))
    omega

theorem flagOffset_inj {flag flag' : Flag} (h : flagOffset flag = flagOffset flag') :
    flag = flag' := by
  cases flag <;> cases flag' <;> first | rfl | cases h

theorem flag_setFlag (flag flag' : Flag) (value : Bool) :
    (file.setFlag flag value).flag flag' = if flag' = flag then value else file.flag flag' := by
  rw [RegisterFile.flag, RegisterFile.flag, setFlag,
    byteAt_setByte _ _ _ _ (by cases flag <;> decide)]
  by_cases h : flag' = flag
  · rw [if_pos (congrArg flagOffset h), if_pos h]
    cases value <;> rfl
  · rw [if_neg (fun heq => h (flagOffset_inj heq)), if_neg h]

theorem flag_setCcr (flag : Flag) : (file.setCcr ccr).flag flag = (ccr &&& flag.ccrBit != 0) := by
  simp only [setCcr, Flag.all, List.foldl_cons, List.foldl_nil, flag_setFlag]
  cases flag <;> rfl

theorem ccr_setCcr : (file.setCcr ccr).ccr = ccr &&& 0x1F := by
  have hbits : ∀ c : BitVec 8,
      Flag.all.foldl (fun acc flag =>
        if (UInt8.ofBitVec c &&& flag.ccrBit != 0) = true then acc ||| flag.ccrBit else acc) 0 =
      UInt8.ofBitVec c &&& 0x1F := by
    decide +kernel
  simp only [RegisterFile.ccr, flag_setCcr]
  exact hbits ccr.toBitVec

theorem ccr_setA : (file.setA n value).ccr = file.ccr := by
  have hflag (flag : Flag) : (file.setA n value).flag flag = file.flag flag := by
    have hoffset : addressOffset + 4 * min n 8 + Size.long.bytes ≤ flagOffset flag := by
      cases flag <;> simp only [addressOffset, flagOffset, Size.bytes] <;> omega
    rw [RegisterFile.flag, RegisterFile.flag]
    exact congrArg (· != 0) ((byteAt_put file value (a_fits n) _).trans (if_neg (by omega)))
  simp only [ccr, hflag]

theorem supervisor_setA : (file.setA n value).supervisor = file.supervisor := by
  rw [supervisor, supervisor, status_setA]

theorem tracing_eq_testBit : file.tracing = file.status.toNat.testBit 7 := by
  have hbits : ∀ c : BitVec 8, (UInt8.ofBitVec c &&& 0x80 != 0) = c.toNat.testBit 7 := by
    decide +kernel
  exact hbits file.status.toBitVec

theorem supervisor_of_sr {file file' : RegisterFile} (h : file'.sr = file.sr) :
    file'.supervisor = file.supervisor := by
  rw [supervisor_eq_testBit, supervisor_eq_testBit, ← testBit_sr _ (by decide),
    ← testBit_sr _ (by decide), h]

/-- The stack pointer of a mode: A7 in this mode, the one not in use in the other. -/
def stack (file : RegisterFile) (supervisor : Bool) : UInt32 :=
  if file.supervisor = supervisor then file.a 7 else file.a 8

theorem a_seven : file.a 7 = file.stack file.supervisor :=
  (if_pos rfl).symm

theorem a_eight : file.a 8 = file.stack (!file.supervisor) := by
  rw [stack, if_neg (by cases file.supervisor <;> decide)]

theorem stack_setA (supervisor : Bool) :
    (file.setA 7 value).stack supervisor =
      if file.supervisor = supervisor then value else file.stack supervisor := by
  rw [stack, stack, supervisor_setA, a_setA, a_setA]
  split <;> rfl

theorem a_congr {file file' : RegisterFile} (hlow : ∀ n < 7, file'.a n = file.a n)
    (hsupervisor : file'.supervisor = file.supervisor)
    (hstack : ∀ mode, file'.stack mode = file.stack mode) (n : Nat) : file'.a n = file.a n := by
  rcases Nat.lt_trichotomy n 7 with h | rfl | h
  · exact hlow n h
  · rw [a_seven, a_seven, hsupervisor, hstack]
  · have hlast (other : RegisterFile) : other.a n = other.a 8 := by
      rw [a, a, Nat.min_eq_right h]
      rfl
    rw [hlast, hlast, a_eight, a_eight, hsupervisor, hstack]

end RegisterFile

namespace Cpu

variable (cpu : Cpu) (value : UInt16)

/-- What is loaded into the status register. -/
def loaded : RegisterFile :=
  (cpu.registers.setStatus ((value &&& statusMask) >>> 8).toUInt8).setCcr
    (value &&& statusMask).toUInt8

theorem registers_setSr :
    (cpu.setSr value).registers =
      if cpu.registers.supervisor = (cpu.loaded value).supervisor then cpu.loaded value
      else swapStacks (cpu.loaded value) :=
  rfl

theorem registers_loaded (n : Nat) :
    (cpu.loaded value).d n = cpu.registers.d n ∧ (cpu.loaded value).a n = cpu.registers.a n := by
  refine registers_congr (fun k hk => ?_) n
  refine (byteAt_setCcr _ _ hk).trans ?_
  rw [setStatus, byteAt_setByte _ _ _ _ (by decide), if_neg]
  exact Nat.ne_of_lt (Nat.lt_trans hk (by decide))

theorem d_setSr (n : Nat) : (cpu.setSr value).registers.d n = cpu.registers.d n := by
  rw [registers_setSr]
  split
  · exact (cpu.registers_loaded value n).1
  · rw [swapStacks, d_setA, d_setA]
    exact (cpu.registers_loaded value n).1

theorem a_setSr {n : Nat} (hn : n < 7) :
    (cpu.setSr value).registers.a n = cpu.registers.a n := by
  rw [registers_setSr]
  split
  · exact (cpu.registers_loaded value n).2
  · rw [swapStacks, a_setA, if_neg (by omega), a_setA,
      if_neg (by omega)]
    exact (cpu.registers_loaded value n).2

/-- The stack pointers change places exactly when the mode changes. -/
theorem stack_setSr (mode : Bool) :
    (cpu.setSr value).registers.stack mode = cpu.registers.stack mode := by
  have hsame (n : Nat) := (cpu.registers_loaded value n).2
  rw [registers_setSr]
  split
  · rename_i h
    rw [stack, stack, ← h, hsame, hsame]
  · rename_i h
    have hmode : (cpu.loaded value).supervisor = !cpu.registers.supervisor :=
      Bool.eq_not.mpr (Ne.symm h)
    rw [stack, stack]
    simp only [swapStacks, supervisor_setA, a_setA, hsame, hmode]
    cases mode <;> cases cpu.registers.supervisor <;> rfl

theorem sr_setSr : (cpu.setSr value).registers.sr = value &&& statusMask := by
  have hlow : (value &&& statusMask).toUInt8 &&& 0x1F = (value &&& statusMask).toUInt8 := by
    rw [UInt16.toUInt8_and, UInt8.and_assoc]
    rfl
  have hccr : (cpu.setSr value).registers.ccr = (value &&& statusMask).toUInt8 := by
    rw [registers_setSr]
    split
    · exact (ccr_setCcr _ _).trans hlow
    · rw [swapStacks, ccr_setA, ccr_setA]
      exact (ccr_setCcr _ _).trans hlow
  rw [sr, status_setSr, hccr]
  exact MemoryMap.join_bytes _

theorem tracing_setSr : (cpu.setSr value).registers.tracing = value.toNat.testBit 15 := by
  rw [tracing_eq_testBit, ← testBit_sr _ (by decide), sr_setSr,
    UInt16.toNat_and, Nat.testBit_and]
  exact Bool.and_true _

end Cpu

end Dynarec68k
