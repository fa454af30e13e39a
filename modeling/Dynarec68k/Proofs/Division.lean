import Dynarec68k.Proofs.ServiceTimes
import Dynarec68k.Proofs.StackPointers

namespace Dynarec68k

open Host

variable (high low : UInt16)

namespace Word

theorem toNat_join : (join high low).toNat = high.toNat * 65536 + low.toNat := by
  have hhigh := high.toNat_lt
  have hlow := low.toNat_lt
  rw [join, UInt32.toNat_or, UInt32.toNat_shiftLeft, UInt16.toNat_toUInt32, UInt16.toNat_toUInt32,
    Nat.mod_eq_of_lt (by change _ <<< 16 < _; omega)]
  exact (Nat.shiftLeft_add_eq_or_of_lt hlow high.toNat).symm.trans (by rw [Nat.shiftLeft_eq])

theorem toNat_toUInt16 {n : Nat} (h : n < 65536) : n.toUInt16.toNat = n :=
  UInt16.toNat_ofNat_of_lt' h

theorem low_join : (join high low).toUInt16 = low := by
  have hlow := low.toNat_lt
  apply UInt16.toNat_inj.mp
  rw [UInt32.toNat_toUInt16, toNat_join]
  omega

theorem high_join : (join high low >>> 16).toUInt16 = high := by
  have hhigh := high.toNat_lt
  have hlow := low.toNat_lt
  apply UInt16.toNat_inj.mp
  rw [UInt32.toNat_toUInt16, UInt32.toNat_shiftRight, toNat_join]
  change (_ >>> 16) % 65536 = _
  omega

end Word

namespace Arithmetic

/-- A quotient in the lower half of a word and a remainder in the upper, as the halves are read,
or none since the quotient does not fit. -/
def Quotient.Divides (fits : ℤ → Prop) (read : UInt16 → ℤ) (a b : ℤ) : Quotient → Prop
  | .value v =>
    let q := read v.toUInt16
    let r := read (v >>> 16).toUInt16
    fits (a.tdiv b) ∧ q = a.tdiv b ∧ a = q * b + r ∧ r.natAbs < b.natAbs ∧
      (r = 0 ∨ r.sign = a.sign)
  | .overflow => ¬fits (a.tdiv b)

variable {fits : ℤ → Prop} {read : UInt16 → ℤ} {a b : ℤ} {high low : UInt16}
  (dividend : UInt32) (divisor : UInt16)

theorem Quotient.divides_join (hb : b ≠ 0) (hfits : fits (a.tdiv b)) (hlow : read low = a.tdiv b)
    (hhigh : read high = a.tmod b) : (Quotient.value (Word.join high low)).Divides fits read a b := by
  simp only [Quotient.Divides, Word.low_join, Word.high_join, hlow, hhigh]
  refine ⟨hfits, trivial, ?_, ?_, ?_⟩
  · rw [Int.mul_comm]
    exact (Int.mul_tdiv_add_tmod a b).symm
  · rw [Int.natAbs_tmod]
    exact Nat.mod_lt _ (Int.natAbs_pos.mpr hb)
  · have hsign := Int.sign_tmod a b
    split at hsign
    · exact .inl (Int.sign_eq_zero_iff_zero.mp hsign)
    · exact .inr hsign

theorem divUnsigned_divides {divisor : UInt16} (h : divisor ≠ 0) :
    (divUnsigned dividend divisor).Divides (fun q => 0 ≤ q ∧ q < 2 ^ 16) (fun w => w.toNat)
      dividend.toNat divisor.toNat := by
  have hpos : (divisor.toNat : ℤ) ≠ 0 := by
    exact_mod_cast fun hzero => h (UInt16.toNat_inj.mp hzero)
  have hquotient : (dividend.toNat : ℤ).tdiv divisor.toNat = (dividend.toNat / divisor.toNat : ℕ) :=
    rfl
  have hremainder : (dividend.toNat : ℤ).tmod divisor.toNat = (dividend.toNat % divisor.toNat : ℕ) :=
    rfl
  have hless : dividend.toNat % divisor.toNat < divisor.toNat :=
    Nat.mod_lt _ (by omega)
  have hsize := divisor.toNat_lt
  unfold divUnsigned
  dsimp only
  split
  · simp only [Quotient.Divides, hquotient]
    omega
  · refine Quotient.divides_join hpos ?_ ?_ ?_
    · rw [hquotient]
      exact ⟨Int.natCast_nonneg _, by omega⟩
    · rw [hquotient, Word.toNat_toUInt16 (by omega)]
    · rw [hremainder, Word.toNat_toUInt16 (by omega)]

theorem divSigned_divides (dividend : Int32) {divisor : Int16} (h : divisor ≠ 0) :
    (divSigned dividend divisor).Divides (fun q => -2 ^ 15 ≤ q ∧ q < 2 ^ 15)
      (fun w => w.toInt16.toInt) dividend.toInt divisor.toInt := by
  have hne : divisor.toInt ≠ 0 := fun hzero => h (Int16.toInt_inj.mp hzero)
  have hless : (dividend.toInt.tmod divisor.toInt).natAbs < divisor.toInt.natAbs := by
    rw [Int.natAbs_tmod]
    exact Nat.mod_lt _ (Int.natAbs_pos.mpr hne)
  have hleast := divisor.le_toInt
  have hmost := divisor.toInt_lt
  unfold divSigned
  dsimp only
  split
  · simp only [Quotient.Divides]
    omega
  · refine Quotient.divides_join hne (by omega) ?_ ?_
    · rw [Int16.toInt16_toUInt16, Int16.toInt_ofInt_of_le (by omega) (by omega)]
    · rw [Int16.toInt16_toUInt16, Int16.toInt_ofInt_of_le (by omega) (by omega)]

/-- A number that fits 32 bits without a sign. -/
def word? (n : ℤ) : Option ℤ :=
  if 0 ≤ n ∧ n < 2 ^ 32 then some n else none

/-- A number that fits 64 bits with a sign. -/
def wide? (n : ℤ) : Option ℤ :=
  if -2 ^ 63 ≤ n ∧ n < 2 ^ 63 then some n else none

/-- There is nothing to divide by zero. -/
def over? (fits? : ℤ → Option ℤ) (f : ℤ → ℤ → ℤ) (a b : ℤ) : Option ℤ :=
  if b = 0 then none else fits? (f a b)

def exactUnsigned (a b : ℤ) : Option Quotient := do
  let q ← over? word? Int.tdiv a b
  if 0xFFFF < q then return .overflow
  let r ← over? word? Int.tmod a b
  let v ← word? (r * 2 ^ 16 + q)
  return .value v.toNat.toUInt32

def exactSigned (a b : ℤ) : Option Quotient := do
  let q ← over? wide? Int.tdiv a b
  if q < -32768 ∨ 32767 < q then return .overflow
  let r ← over? wide? Int.tmod a b
  return .value (Word.join (Int16.ofInt r).toUInt16 (Int16.ofInt q).toUInt16)

/-- Steps of an unsigned division on a register that is doubled, with the time so far. -/
def exactSteps (divisor : ℤ) : Nat → ℤ → ℤ → Option ℤ
  | 0, _, time => some time
  | steps + 1, register, time =>
    if 2 ^ 32 ≤ 2 * register then do
      exactSteps divisor steps (← word? (2 * register - divisor)) time
    else do
      let later ← word? (time + 2)
      if divisor ≤ 2 * register then
        exactSteps divisor steps (← word? (2 * register - divisor)) (← word? (later - 1))
      else exactSteps divisor steps (2 * register) later

def exactUnsignedClocks (a b : ℤ) : Option ℤ :=
  if b ≤ a / 2 ^ 16 then some 10
  else do
    let time ← exactSteps (← word? (b * 2 ^ 16)) 15 a 38
    word? (time * 2)

/-- The quotient is shifted left fifteen times to count its bits. -/
def exactSignedClocks (a b : ℤ) : Option ℤ := do
  let dividend ← word? a.natAbs
  let divisor ← word? b.natAbs
  let start := if a < 0 then 7 else 6
  if divisor ≤ dividend / 2 ^ 16 then word? ((start + 2) * 2)
  else
    let q ← over? word? Int.tdiv dividend divisor
    let signs := if b < 0 then 55 else if a < 0 then 56 else 54
    let _ ← word? (q * 2 ^ 15)
    word? ((start + signs + clearUpperBits q.toNat) * 2)

theorem word?_eq {n : ℤ} (h : 0 ≤ n ∧ n < 2 ^ 32) : word? n = some n :=
  if_pos h

theorem wide?_eq {n : ℤ} (h : -2 ^ 63 ≤ n ∧ n < 2 ^ 63) : wide? n = some n :=
  if_pos h

theorem over?_eq {fits? : ℤ → Option ℤ} {f : ℤ → ℤ → ℤ} {a b : ℤ} (hb : b ≠ 0)
    (h : fits? (f a b) = some (f a b)) : over? fits? f a b = some (f a b) :=
  (if_neg hb).trans h

theorem exactUnsigned_eq {divisor : UInt16} (h : divisor ≠ 0) :
    exactUnsigned dividend.toNat divisor.toNat = some (divUnsigned dividend divisor) := by
  have hpos : divisor.toNat ≠ 0 := fun hzero => h (UInt16.toNat_inj.mp hzero)
  have hdividend := dividend.toNat_lt
  have hdivisor := divisor.toNat_lt
  have hless : dividend.toNat % divisor.toNat < divisor.toNat := Nat.mod_lt _ (by omega)
  have hmost : dividend.toNat / divisor.toNat ≤ dividend.toNat := Nat.div_le_self _ _
  have hquotient : over? word? Int.tdiv dividend.toNat divisor.toNat =
      some ((dividend.toNat / divisor.toNat : ℕ) : ℤ) :=
    over?_eq (by omega) (word?_eq ⟨Int.natCast_nonneg _, by change ((_ / _ : ℕ) : ℤ) < _; omega⟩)
  have hremainder : over? word? Int.tmod dividend.toNat divisor.toNat =
      some ((dividend.toNat % divisor.toNat : ℕ) : ℤ) :=
    over?_eq (by omega) (word?_eq ⟨Int.natCast_nonneg _, by change ((_ % _ : ℕ) : ℤ) < _; omega⟩)
  simp only [exactUnsigned, hquotient, hremainder, Option.bind_eq_bind, Option.bind_some]
  unfold divUnsigned
  generalize dividend.toNat / divisor.toNat = q at *
  generalize dividend.toNat % divisor.toNat = r at *
  by_cases hfits : 0xFFFF < q
  · rw [if_pos (by omega), if_pos hfits]
    rfl
  · rw [if_neg (by omega), if_neg hfits, word?_eq (by omega)]
    refine congrArg (fun v => some (Quotient.value v)) (UInt32.toNat_inj.mp ?_)
    rw [Word.toNat_join, Word.toNat_toUInt16 (by omega), Word.toNat_toUInt16 (by omega),
      Nat.toUInt32, UInt32.toNat_ofNat']
    omega

theorem exactSigned_eq (dividend : Int32) {divisor : Int16} (h : divisor ≠ 0) :
    exactSigned dividend.toInt divisor.toInt = some (divSigned dividend divisor) := by
  have hne : divisor.toInt ≠ 0 := fun hzero => h (Int16.toInt_inj.mp hzero)
  have hwide {n : ℤ} (hn : n.natAbs ≤ dividend.toInt.natAbs) : wide? n = some n := by
    have hleast := dividend.le_toInt
    have hmost := dividend.toInt_lt
    exact wide?_eq (by omega)
  have hquotient := over?_eq (f := Int.tdiv) hne (hwide (n := dividend.toInt.tdiv divisor.toInt) (by
    rw [Int.natAbs_tdiv]
    exact Nat.div_le_self _ _))
  have hremainder := over?_eq (f := Int.tmod) hne (hwide (n := dividend.toInt.tmod divisor.toInt) (by
    rw [Int.natAbs_tmod]
    exact Nat.mod_le _ _))
  simp only [exactSigned, hquotient, hremainder, Option.bind_eq_bind, Option.bind_some, divSigned]
  split <;> rfl

theorem and_top (r : UInt32) : (r &&& 0x80000000 != 0) = decide (2 ^ 32 ≤ 2 * r.toNat) := by
  have hlt := r.toNat_lt
  have hand : (r &&& 0x80000000).toNat = (r.toNat.testBit 31).toNat * 2 ^ 31 :=
    (UInt32.toNat_and r _).trans (Nat.and_two_pow r.toNat 31)
  rw [Bool.eq_iff_iff, bne_iff_ne, ne_eq, ← UInt32.toNat_inj, decide_eq_true_iff, hand,
    Nat.testBit_eq_decide_div_mod_eq]
  by_cases hbit : r.toNat / 2 ^ 31 % 2 = 1
  · rw [decide_eq_true hbit]
    exact iff_of_true (by decide) (by omega)
  · rw [decide_eq_false hbit]
    exact iff_of_false (by decide) (by omega)

/-- The register stays below the divisor, and so within its word. -/
theorem exactSteps_eq {divisor : UInt32} (steps : Nat) {register : UInt32}
    (hless : register < divisor) {time : Nat} (htime : time + 2 * steps < 2 ^ 32) :
    exactSteps divisor.toNat steps register.toNat time =
      some ((time + divUnsignedSteps divisor steps register : ℕ) : ℤ) := by
  have hdivisor := divisor.toNat_lt
  induction steps generalizing register time with
  | zero => rfl
  | succ steps ih =>
    rw [UInt32.lt_iff_toNat_lt] at hless
    have hshifted : (register <<< 1).toNat = 2 * register.toNat % 2 ^ 32 := by
      rw [UInt32.toNat_shiftLeft]
      change register.toNat <<< 1 % _ = _
      rw [Nat.shiftLeft_eq, Nat.mul_comm]
    have htaken (hle : divisor.toNat ≤ 2 * register.toNat) : register <<< 1 - divisor < divisor ∧
        word? (2 * register.toNat - divisor.toNat) =
          some ((register <<< 1 - divisor).toNat : ℤ) := by
      have hleft : (register <<< 1 - divisor).toNat = 2 * register.toNat - divisor.toNat := by
        rw [UInt32.toNat_sub, hshifted]
        omega
      rw [UInt32.lt_iff_toNat_lt, hleft, word?_eq (by omega)]
      exact ⟨by omega, congrArg some (by omega)⟩
    rw [exactSteps, divUnsignedSteps]
    simp only [and_top, decide_eq_true_eq, UInt32.le_iff_toNat_le, hshifted]
    by_cases hcarry : 2 ^ 32 ≤ 2 * register.toNat
    · obtain ⟨hless, hfits⟩ := htaken (by omega)
      rw [if_pos (by omega), if_pos hcarry, hfits]
      exact ih hless (by omega)
    · have hlater : (time : ℤ) + 2 = (time + 2 : ℕ) := rfl
      have hsooner : ((time + 2 : ℕ) : ℤ) - 1 = (time + 1 : ℕ) := by omega
      have hdoubled : (2 : ℤ) * register.toNat = (register <<< 1).toNat := by omega
      rw [if_neg (by omega), if_neg hcarry, Nat.mod_eq_of_lt (by omega), hlater,
        word?_eq (by omega), Option.bind_eq_bind, Option.bind_some]
      by_cases hfull : divisor.toNat ≤ 2 * register.toNat
      · obtain ⟨hless, hfits⟩ := htaken hfull
        rw [if_pos (by omega), if_pos hfull, hfits, hsooner, word?_eq (by omega)]
        exact (ih hless (by omega)).trans (by rw [Nat.add_assoc])
      · rw [if_neg (by omega), if_neg hfull, hdoubled]
        exact (ih (UInt32.lt_iff_toNat_lt.mpr (by omega)) (by omega)).trans (by rw [Nat.add_assoc])

theorem toNat_upper : (divisor.toUInt32 <<< 16).toNat = divisor.toNat * 2 ^ 16 := by
  have hlt := divisor.toNat_lt
  rw [UInt32.toNat_shiftLeft, UInt16.toNat_toUInt32]
  change divisor.toNat <<< 16 % _ = _
  rw [Nat.shiftLeft_eq, Nat.mod_eq_of_lt (by omega)]

theorem early_overflow :
    divisor.toUInt32 ≤ dividend >>> 16 ↔ divisor.toNat ≤ dividend.toNat / 2 ^ 16 := by
  rw [UInt32.le_iff_toNat_le, UInt16.toNat_toUInt32, UInt32.toNat_shiftRight,
    Nat.shiftRight_eq_div_pow]
  rfl

theorem exactUnsignedClocks_eq :
    exactUnsignedClocks dividend.toNat divisor.toNat =
      some (divUnsignedClocks dividend divisor : ℤ) := by
  have hlt := divisor.toNat_lt
  have hsteps := divUnsignedSteps_le (divisor.toUInt32 <<< 16) 15 dividend
  unfold exactUnsignedClocks divUnsignedClocks
  simp only [early_overflow]
  by_cases hearly : divisor.toNat ≤ dividend.toNat / 2 ^ 16
  · rw [if_pos (by omega), if_pos hearly]
    rfl
  · have hupper : (divisor.toNat : ℤ) * (2 : ℤ) ^ 16 = (divisor.toUInt32 <<< 16).toNat := by
      rw [toNat_upper]
      rfl
    rw [if_neg (by omega), if_neg hearly, hupper, word?_eq (by rw [toNat_upper]; omega)]
    have htime := exactSteps_eq 15 (UInt32.lt_iff_toNat_lt.mpr (by rw [toNat_upper]; omega) :
      dividend < divisor.toUInt32 <<< 16) (by decide : 38 + 2 * 15 < 2 ^ 32)
    simp only [Option.bind_eq_bind, Option.bind_some]
    rw [show (38 : ℤ) = (38 : ℕ) from rfl, htime, Option.bind_some, word?_eq (by omega)]
    exact congrArg some (by omega)

theorem clearUpperBits_le (value : Nat) : clearUpperBits value ≤ 15 :=
  List.countP_le_length

theorem exactSignedClocks_eq (dividend : Int32) {divisor : Int16} (h : divisor ≠ 0) :
    exactSignedClocks dividend.toInt divisor.toInt =
      some (divSignedClocks dividend divisor : ℤ) := by
  have hne : divisor.toInt ≠ 0 := fun hzero => h (Int16.toInt_inj.mp hzero)
  have hleast := dividend.le_toInt
  have hmost := dividend.toInt_lt
  have hleast' := divisor.le_toInt
  have hmost' := divisor.toInt_lt
  have hbits := clearUpperBits_le (dividend.toInt.natAbs / divisor.toInt.natAbs)
  simp only [exactSignedClocks, divSignedClocks, Option.bind_eq_bind]
  rw [word?_eq (by omega), word?_eq (by omega), Option.bind_some, Option.bind_some]
  by_cases hearly : divisor.toInt.natAbs ≤ dividend.toInt.natAbs / 0x10000
  · rw [if_pos (by omega), if_pos hearly, word?_eq (by split_ifs <;> omega)]
    exact congrArg some (by split_ifs <;> omega)
  · have hless : dividend.toInt.natAbs / divisor.toInt.natAbs < 2 ^ 16 :=
      (Nat.div_lt_iff_lt_mul (by omega)).mpr (by omega)
    have hquotient : over? word? Int.tdiv dividend.toInt.natAbs divisor.toInt.natAbs =
        some ((dividend.toInt.natAbs / divisor.toInt.natAbs : ℕ) : ℤ) :=
      over?_eq (by omega) (word?_eq ⟨Int.natCast_nonneg _, by change ((_ / _ : ℕ) : ℤ) < _; omega⟩)
    rw [if_neg (by omega), if_neg hearly, hquotient, Option.bind_some,
      word?_eq ⟨Int.mul_nonneg (Int.natCast_nonneg _) (by decide), by omega⟩, Option.bind_some,
      Int.toNat_natCast, word?_eq (by split_ifs <;> omega)]
    exact congrArg some (by split_ifs <;> omega)

theorem divUnsigned_eq_overflow {divisor : UInt16} (h : divisor ≠ 0) :
    divUnsigned dividend divisor = .overflow ↔ divisor.toNat ≤ dividend.toNat / 2 ^ 16 := by
  have hpos : 0 < divisor.toNat := Nat.pos_of_ne_zero fun hzero => h (UInt16.toNat_inj.mp hzero)
  have hlarge : 0xFFFF < dividend.toNat / divisor.toNat ↔
      divisor.toNat ≤ dividend.toNat / 2 ^ 16 := by
    rw [Nat.le_div_iff_mul_le (by decide)]
    exact (Nat.le_div_iff_mul_le hpos).trans (by rw [Nat.mul_comm]; rfl)
  rw [← hlarge, divUnsigned]
  split_ifs with hfits <;> simp [hfits]

theorem divUnsignedClocks_tells {divisor : UInt16} (h : divisor ≠ 0) :
    (divUnsignedClocks dividend divisor = 10 ↔ divUnsigned dividend divisor = .overflow) ∧
      (divUnsigned dividend divisor ≠ .overflow → 76 ≤ divUnsignedClocks dividend divisor ∧
        divUnsignedClocks dividend divisor ≤ 136 ∧ divUnsignedClocks dividend divisor % 2 = 0) := by
  have hsteps := divUnsignedSteps_le (divisor.toUInt32 <<< 16) 15 dividend
  rw [ne_eq, divUnsigned_eq_overflow dividend h, divUnsignedClocks, ← early_overflow]
  by_cases hearly : divisor.toUInt32 ≤ dividend >>> 16
  · rw [if_pos hearly]
    exact ⟨iff_of_true rfl hearly, fun hlate => absurd hearly hlate⟩
  · rw [if_neg hearly]
    exact ⟨iff_of_false (by omega) hearly, fun _ => by omega⟩

theorem divSignedClocks_tells (dividend : Int32) {divisor : Int16} (h : divisor ≠ 0) :
    (divSignedClocks dividend divisor = 16 ∨ divSignedClocks dividend divisor = 18) ∧
        divSigned dividend divisor = .overflow ∨
      120 ≤ divSignedClocks dividend divisor ∧ divSignedClocks dividend divisor ≤ 156 ∧
        divSignedClocks dividend divisor % 2 = 0 := by
  have hne : divisor.toInt ≠ 0 := fun hzero => h (Int16.toInt_inj.mp hzero)
  have hbits := clearUpperBits_le (dividend.toInt.natAbs / divisor.toInt.natAbs)
  simp only [divSignedClocks]
  by_cases hearly : divisor.toInt.natAbs ≤ dividend.toInt.natAbs / 0x10000
  · have hlarge : 0x10000 ≤ (dividend.toInt.tdiv divisor.toInt).natAbs := by
      rw [Int.natAbs_tdiv]
      refine (Nat.le_div_iff_mul_le (by omega)).mpr ?_
      omega
    refine .inl ⟨?_, if_pos (by omega)⟩
    rw [if_pos hearly]
    split_ifs <;> omega
  · refine .inr ?_
    rw [if_neg hearly]
    split_ifs <;> omega

end Arithmetic

open Arithmetic

/-- The destination gets quotient and remainder, or stays and V is set. -/
def Cpu.Served.Divided (served : Served) (dividend : UInt32) : Quotient → Prop
  | .value v => served.result = some v ∧ served.cpu.registers.flag .v = false
  | .overflow => served.result = some dividend ∧ served.cpu.registers.flag .v = true

theorem Cpu.serveDivide_divided (cpu : Cpu) (signed : Bool) {divisor : UInt16} (h : divisor ≠ 0)
    (dividend next : UInt32) : (cpu.serveDivide signed divisor dividend next).Divided dividend
      (if signed then divSigned dividend.toInt32 divisor.toInt16
        else divUnsigned dividend divisor) := by
  unfold serveDivide
  rw [if_neg h]
  dsimp only
  generalize (if signed = true then divSigned dividend.toInt32 divisor.toInt16
    else divUnsigned dividend divisor) = quotient
  cases quotient <;> exact ⟨rfl, by
    simp only [quotientFlags, Served.value, Cpu.setFlag, RegisterFile.flag_setFlag]; rfl⟩

/-- Division is exact, and its time agrees with it. For every dividend and every divisor but zero
the quotient and the remainder are given if the quotient fits its half of the destination, and else
the destination stays and V is set. An unsigned division takes 10 clocks if it overflows and from 76
to 136 if not; a signed one takes 16 or 18 only if it overflows, and else from 120 to 156. Computed
with exact numbers, no intermediate number leaves its word and none is divided by zero. -/
theorem division_exact (dividend : UInt32) {divisor : UInt16} (h : divisor ≠ 0) :
    (divUnsigned dividend divisor).Divides (fun q => 0 ≤ q ∧ q < 2 ^ 16) (fun w => w.toNat)
      dividend.toNat divisor.toNat ∧
    (divSigned dividend.toInt32 divisor.toInt16).Divides (fun q => -2 ^ 15 ≤ q ∧ q < 2 ^ 15)
      (fun w => w.toInt16.toInt) dividend.toInt32.toInt divisor.toInt16.toInt ∧
    (∀ (cpu : Cpu) (host : State), (host.reg Role.scratch1).toUInt16 = divisor →
      host.reg Role.scratch2 = dividend →
      (cpu.serve host .divu).Divided dividend (divUnsigned dividend divisor) ∧
      (cpu.serve host .divs).Divided dividend
        (divSigned dividend.toInt32 divisor.toInt16)) ∧
    ((divUnsignedClocks dividend divisor = 10 ↔ divUnsigned dividend divisor = .overflow) ∧
      (divUnsigned dividend divisor ≠ .overflow → 76 ≤ divUnsignedClocks dividend divisor ∧
        divUnsignedClocks dividend divisor ≤ 136 ∧
        divUnsignedClocks dividend divisor % 2 = 0)) ∧
    ((divSignedClocks dividend.toInt32 divisor.toInt16 = 16 ∨
          divSignedClocks dividend.toInt32 divisor.toInt16 = 18) ∧
        divSigned dividend.toInt32 divisor.toInt16 = .overflow ∨
      120 ≤ divSignedClocks dividend.toInt32 divisor.toInt16 ∧
        divSignedClocks dividend.toInt32 divisor.toInt16 ≤ 156 ∧
        divSignedClocks dividend.toInt32 divisor.toInt16 % 2 = 0) ∧
    exactUnsigned dividend.toNat divisor.toNat = some (divUnsigned dividend divisor) ∧
    exactSigned dividend.toInt32.toInt divisor.toInt16.toInt =
      some (divSigned dividend.toInt32 divisor.toInt16) ∧
    exactUnsignedClocks dividend.toNat divisor.toNat =
      some (divUnsignedClocks dividend divisor : ℤ) ∧
    exactSignedClocks dividend.toInt32.toInt divisor.toInt16.toInt =
      some (divSignedClocks dividend.toInt32 divisor.toInt16 : ℤ) := by
  have hsigned : divisor.toInt16 ≠ 0 := by
    intro hzero
    rw [← UInt16.toUInt16_toInt16 divisor, hzero] at h
    exact h rfl
  refine ⟨divUnsigned_divides dividend h, divSigned_divides _ hsigned, ?_,
    divUnsignedClocks_tells dividend h, divSignedClocks_tells _ hsigned,
    exactUnsigned_eq dividend h, exactSigned_eq _ hsigned, exactUnsignedClocks_eq dividend divisor,
    exactSignedClocks_eq _ hsigned⟩
  rintro cpu host rfl rfl
  exact ⟨cpu.serveDivide_divided false h _ _, cpu.serveDivide_divided true h _ _⟩

/-- -2^31 by -1. -/
theorem division_exact_least : divSigned (UInt32.toInt32 0x80000000) (UInt16.toInt16 0xFFFF) = .overflow ∧
    exactSigned (-2 ^ 31) (-1) = some .overflow := by
  obtain ⟨-, -, -, -, -, -, hsigned, -⟩ :=
    division_exact 0x80000000 (by decide : (0xFFFF : UInt16) ≠ 0)
  exact ⟨by decide, hsigned⟩

end Dynarec68k
