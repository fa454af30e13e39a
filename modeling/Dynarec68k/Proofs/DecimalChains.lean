import Dynarec68k.Proofs.StackPointers
import Mathlib.Data.Nat.Digits.Defs
import Mathlib.Tactic.LinearCombination

namespace Dynarec68k

open Host List State

namespace Arithmetic

/-- Both halves of a byte are decimal digits. -/
def IsPacked (b : UInt8) : Prop :=
  b.toNat / 16 ≤ 9 ∧ b.toNat % 16 ≤ 9

instance : DecidablePred IsPacked :=
  fun _ => inferInstanceAs (Decidable (_ ∧ _))

def pairValue (b : UInt8) : Nat :=
  10 * (b.toNat / 16) + b.toNat % 16

/-- The number that packed bytes stand for, the least significant first. -/
def packedValue (bytes : List UInt8) : Nat :=
  Nat.ofDigits 100 (bytes.map pairValue)

theorem packedValue_cons (b : UInt8) (bytes : List UInt8) :
    packedValue (b :: bytes) = pairValue b + 100 * packedValue bytes :=
  rfl

theorem pairValue_lt {b : UInt8} (h : IsPacked b) : pairValue b < 100 := by
  obtain ⟨hhigh, hlow⟩ := h
  unfold pairValue
  omega

theorem pairValue_inj {b c : UInt8} (hb : IsPacked b) (hc : IsPacked c)
    (h : pairValue b = pairValue c) : b = c := by
  obtain ⟨-, hb⟩ := hb
  obtain ⟨-, hc⟩ := hc
  unfold pairValue at h
  apply UInt8.toNat_inj.mp
  omega

theorem packedValue_lt {bytes : List UInt8} (h : ∀ b ∈ bytes, IsPacked b) :
    packedValue bytes < 100 ^ bytes.length := by
  have hlt : ∀ v ∈ bytes.map pairValue, v < 100 :=
    forall_mem_map.mpr fun b hb => pairValue_lt (h b hb)
  have hvalue := Nat.ofDigits_lt_base_pow_length (by decide) hlt
  rwa [length_map] at hvalue

theorem packedValue_inj {bytes bytes' : List UInt8} (h : ∀ b ∈ bytes, IsPacked b)
    (h' : ∀ b ∈ bytes', IsPacked b) (hlength : bytes.length = bytes'.length)
    (hvalue : packedValue bytes = packedValue bytes') : bytes = bytes' := by
  induction bytes generalizing bytes' with
  | nil => exact (eq_nil_of_length_eq_zero hlength.symm).symm
  | cons b bytes ih =>
    obtain ⟨c, rest, rfl⟩ := exists_cons_of_length_eq_add_one hlength.symm
    obtain ⟨hb, hbytes⟩ := forall_mem_cons.mp h
    obtain ⟨hc, hrest⟩ := forall_mem_cons.mp h'
    have hlow := pairValue_lt hb
    have hlow' := pairValue_lt hc
    rw [packedValue_cons, packedValue_cons] at hvalue
    rw [pairValue_inj hb hc (by omega), ih hbytes hrest (Nat.succ.inj hlength) (by omega)]

variable {s d : UInt8} (hs : IsPacked s) (hd : IsPacked d) (x : Bool)
include hs hd

theorem decimalAdd_packed : IsPacked (decimalAdd s d x).value ∧
    pairValue (decimalAdd s d x).value + 100 * (decimalAdd s d x).carry.toNat =
      pairValue d + (pairValue s + x.toNat) := by
  obtain ⟨hshigh, hslow⟩ := hs
  obtain ⟨hdhigh, hdlow⟩ := hd
  have hone := x.toNat_le
  have hcarry : (decimalAdd s d x).carry.toNat = if (decimalAdd s d x).carry then 1 else 0 := by
    cases (decimalAdd s d x).carry <;> rfl
  rw [hcarry]
  simp only [decimalAdd, IsPacked, pairValue, Nat.toUInt8, UInt8.toNat_ofNat', decide_eq_true_eq]
  split_ifs <;> omega

theorem decimalSub_packed : IsPacked (decimalSub d s x).value ∧
    pairValue (decimalSub d s x).value + (pairValue s + x.toNat) =
      pairValue d + 100 * (decimalSub d s x).carry.toNat := by
  obtain ⟨hshigh, hslow⟩ := hs
  obtain ⟨hdhigh, hdlow⟩ := hd
  have hsize := s.toNat_lt
  have hx : x.toUInt8.toNat = x.toNat := by
    cases x <;> rfl
  have hone := x.toNat_le
  obtain ⟨low, hlow⟩ : ∃ low, low = decide (d.toNat % 16 < s.toNat % 16 + x.toNat) := ⟨_, rfl⟩
  obtain ⟨high, hhigh⟩ : ∃ high, high = decide (d.toNat / 16 < s.toNat / 16 + low.toNat) :=
    ⟨_, rfl⟩
  -- A borrow of the lower digit alone leaves at least six, so that the correction takes no more.
  have hleft : low = true → high = false → ¬ (d - s - x.toUInt8).toNat < 6 := by
    rintro rfl rfl
    simp only [true_eq_decide_iff, false_eq_decide_iff, Bool.toNat_true] at hlow hhigh
    simp only [UInt8.toNat_sub, hx, Nat.add_mod_mod]
    omega
  simp only [decimalSub, ← hlow, ← hhigh, IsPacked, pairValue, UInt8.lt_iff_toNat_lt]
  cases low <;> cases high <;>
    simp only [true_eq_decide_iff, false_eq_decide_iff, Bool.toNat_true, Bool.toNat_false, if_true,
      if_false, Bool.true_or, Bool.false_or, Bool.true_and, Bool.false_and, Bool.false_eq_true,
      UInt8.toNat_sub, UInt8.reduceToNat, Nat.add_mod_mod, hx] at hlow hhigh hleft ⊢
  · omega
  · omega
  · simp only [hleft trivial trivial, decide_false, Bool.toNat_false]
    omega
  · omega

end Arithmetic

open Arithmetic

namespace Host.State

/-- The operands of a decimal service. -/
def source (host : State) : UInt8 :=
  (host.reg Role.scratch1).toUInt8

def destination (host : State) : UInt8 :=
  (host.reg Role.scratch2).toUInt8

/-- What the code of NBCD makes of its operand: it is taken away from zero. -/
def fromZero (host : State) : State :=
  host.setReg Role.scratch2 0

open Codegen in
/-- So it is: right before the subtraction is asked for, zero is loaded in place of the
destination. -/
theorem decimalNegate_fromZero (config : Config) (inst : Instruction) :
    [.op (.mov (.imm 0) (.reg Role.scratch2) .long), .op (.service .sbcd)] <:+:
        decimalNegate config inst ∧
      ∀ machine : Machine, machine.perform (.mov (.imm 0) (.reg Role.scratch2) .long) =
        .ok { machine with state := machine.state.fromZero } := by
  constructor
  · unfold decimalNegate
    cases destOf config inst.dst .byte with
    | place dst =>
      refine ⟨locateDest config inst.pcBase inst.dst .byte ++
        (charge config 6 ++ mov dst (.reg Role.scratch1) .long), mov (.reg Role.scratch1) dst .byte, ?_⟩
      simp only [append_assoc]
      rfl
    | memory lowFirst =>
      refine ⟨locateDest config inst.pcBase inst.dst .byte ++
        (charge config (4 + addressClocks inst.dst .byte) ++ (readDest (.memory lowFirst) .byte ++
          mov (.reg Role.scratch2) (.reg Role.scratch4) .long)),
        mov (.reg Role.scratch4) (.reg Role.scratch2) .long ++ callWrite .byte false, ?_⟩
      simp only [append_assoc]
      rfl
  · intro machine
    exact congrArg (fun value => Except.ok { machine with
      state := machine.state.setReg Role.scratch2 value }) (Alike.merge_long _ 0)

theorem source_fromZero (host : State) : host.fromZero.source = host.source := by
  rw [source, fromZero, reg_setReg _ (by decide), if_neg (by decide)]
  rfl

theorem destination_fromZero (host : State) : host.fromZero.destination = 0 := by
  rw [destination, fromZero, reg_setReg _ (by decide), if_pos rfl]
  rfl

end Host.State

namespace Cpu

/-- A service is asked for by one host after another. The low bytes of the results, and the
processor behind them. -/
def chain (cpu : Cpu) (service : Service) : List State → List UInt8 × Cpu
  | [] => ([], cpu)
  | host :: hosts =>
    let served := cpu.serve host service
    let rest := served.cpu.chain service hosts
    ((served.result.getD 0).toUInt8 :: rest.1, rest.2)

theorem flag_decimalFlags (cpu : Cpu) (result : DecimalResult) :
    (cpu.decimalFlags result).registers.flag .x = result.carry ∧
      (cpu.decimalFlags result).registers.flag .c = result.carry ∧
      (cpu.decimalFlags result).registers.flag .z =
        (cpu.registers.flag .z && result.value == 0) := by
  unfold decimalFlags
  by_cases hzero : result.value = 0
  · simp [hzero, Cpu.setFlag, RegisterFile.flag_setFlag]
  · simp [hzero, Cpu.setFlag, RegisterFile.flag_setFlag]

/-- Chains of a service add, or subtract where the sign is negative: on packed bytes it does so to
their numbers, with X, and X and C carry the rest. -/
structure Sums (service : Service) (sign : ℤ) : Prop where
  step (cpu : Cpu) (host : State) (hs : IsPacked host.source) (hd : IsPacked host.destination) :
    ∃ r : DecimalResult, cpu.serve host service = .value (cpu.decimalFlags r) r.value.toUInt32 ∧
      IsPacked r.value ∧ (pairValue r.value : ℤ) + sign * 100 * r.carry.toNat =
        pairValue host.destination +
          sign * (pairValue host.source + (cpu.registers.flag .x).toNat)

theorem sums_abcd : Sums .abcd 1 where
  step cpu host hs hd := by
    obtain ⟨hpacked, hvalue⟩ := decimalAdd_packed hs hd (cpu.registers.flag .x)
    exact ⟨decimalAdd host.source host.destination _, rfl, hpacked, by omega⟩

theorem sums_sbcd : Sums .sbcd (-1) where
  step cpu host hs hd := by
    obtain ⟨hpacked, hvalue⟩ := decimalSub_packed hs hd (cpu.registers.flag .x)
    exact ⟨decimalSub host.destination host.source _, rfl, hpacked, by omega⟩

/-- Packed bytes of a number modulo 100^n, with its carry in X and C. Z tells whether it was set
and all of the bytes are zero. -/
structure Chained (cpu : Cpu) (n : Nat) (number : ℤ) (carry : Bool) (r : List UInt8 × Cpu) :
    Prop where
  packed : ∀ b ∈ r.1, IsPacked b
  length : r.1.length = n
  value : (packedValue r.1 : ℤ) = number % 100 ^ n
  extend : r.2.registers.flag .x = carry
  carry : r.2.registers.flag .c = carry
  zero : r.2.registers.flag .z = (cpu.registers.flag .z && r.1.all (· == 0))

variable {service : Service} {sign : ℤ} {hosts : List State} {number p r : ℤ} {carry : Bool}

/-- The number of the bytes so far and the carry behind them are, together, the exact result. -/
theorem Sums.chain (h : Sums service sign) (cpu : Cpu) (hs : ∀ host ∈ hosts, IsPacked host.source)
    (hd : ∀ host ∈ hosts, IsPacked host.destination) :
    (∀ b ∈ (cpu.chain service hosts).1, IsPacked b) ∧
      (cpu.chain service hosts).1.length = hosts.length ∧
      (packedValue (cpu.chain service hosts).1 : ℤ) + sign * 100 ^ hosts.length *
          ((cpu.chain service hosts).2.registers.flag .x).toNat =
        packedValue (hosts.map destination) +
          sign * (packedValue (hosts.map source) + (cpu.registers.flag .x).toNat) ∧
      (hosts ≠ [] → (cpu.chain service hosts).2.registers.flag .c =
        (cpu.chain service hosts).2.registers.flag .x) ∧
      (cpu.chain service hosts).2.registers.flag .z =
        (cpu.registers.flag .z && (cpu.chain service hosts).1.all (· == 0)) := by
  induction hosts generalizing cpu with
  | nil => simp [Cpu.chain, packedValue]
  | cons host hosts ih =>
    obtain ⟨hsource, hs⟩ := forall_mem_cons.mp hs
    obtain ⟨hdestination, hd⟩ := forall_mem_cons.mp hd
    obtain ⟨r, hserve, hpacked, hvalue⟩ := h.step cpu host hsource hdestination
    obtain ⟨hx, hc, hz⟩ := cpu.flag_decimalFlags r
    obtain ⟨hbytes, hlength, hrest, hcarry, hzero⟩ := ih (cpu.decimalFlags r) hs hd
    have hbyte : r.value.toUInt32.toUInt8 = r.value := UInt8.toUInt8_toUInt32 r.value
    simp only [Cpu.chain, hserve, Served.value, Option.getD_some, hbyte]
    refine ⟨forall_mem_cons.mpr ⟨hpacked, hbytes⟩, congrArg (· + 1) hlength, ?_, ?_, ?_⟩
    · rw [hx] at hrest
      simp only [map_cons, packedValue_cons, length_cons, pow_succ]
      push_cast
      linear_combination hvalue + 100 * hrest
    · intro _
      cases hosts with
      | nil => exact hc.trans hx.symm
      | cons next hosts => exact hcarry (cons_ne_nil _ _)
    · rw [hzero, hz, all_cons, Bool.and_assoc]

theorem Sums.chained (h : Sums service sign) (cpu : Cpu) (hsome : hosts ≠ [])
    (hs : ∀ host ∈ hosts, IsPacked host.source) (hd : ∀ host ∈ hosts, IsPacked host.destination)
    (hnumber : number = packedValue (hosts.map destination) +
      sign * (packedValue (hosts.map source) + (cpu.registers.flag .x).toNat))
    (hcarry : ∀ (r : ℤ) (x : Bool), 0 ≤ r → r < 100 ^ hosts.length →
      r + sign * 100 ^ hosts.length * x.toNat = number → x = carry) :
    Chained cpu hosts.length number carry (cpu.chain service hosts) := by
  obtain ⟨hpacked, hlength, hexact, hc, hzero⟩ := h.chain cpu hs hd
  have hlt : (packedValue (cpu.chain service hosts).1 : ℤ) < 100 ^ hosts.length := by
    rw [← hlength]
    exact_mod_cast packedValue_lt hpacked
  rw [← hnumber] at hexact
  have hx := hcarry _ _ (Int.natCast_nonneg _) hlt hexact
  refine ⟨hpacked, hlength, ?_, hx, (hc hsome).trans hx, hzero⟩
  rw [← hexact, Int.mul_right_comm, Int.mul_comm _ (100 ^ _), Int.add_mul_emod_self_left,
    Int.emod_eq_of_lt (Int.natCast_nonneg _) hlt]

theorem carry_of_sum (hleast : 0 ≤ r) (hmost : r < p) (h : r + 1 * p * carry.toNat = number) :
    carry = decide (p ≤ number) := by
  cases carry <;> simp only [Bool.toNat_true, Bool.toNat_false, Nat.cast_one, Nat.cast_zero,
    false_eq_decide_iff, true_eq_decide_iff] at h ⊢ <;> omega

theorem borrow_of_difference {borrow : Bool} (hleast : 0 ≤ r) (hmost : r < p)
    (h : r + -1 * p * borrow.toNat = number) : borrow = decide (number < 0) := by
  cases borrow <;> simp only [Bool.toNat_true, Bool.toNat_false, Nat.cast_one, Nat.cast_zero,
    false_eq_decide_iff, true_eq_decide_iff] at h ⊢ <;> omega

theorem chain_back {cpu again : Cpu} {back : List State}
    (hs : ∀ host ∈ hosts, IsPacked host.source) (hd : ∀ host ∈ hosts, IsPacked host.destination)
    (hx : again.registers.flag .x = cpu.registers.flag .x)
    (hback : back.map destination = (cpu.chain .abcd hosts).1) {kept : List UInt8}
    (hkept : ∀ b ∈ kept, IsPacked b) (hlength : kept.length = hosts.length)
    (hsource : ∀ b ∈ back.map source, IsPacked b)
    (hsum : packedValue kept + packedValue (back.map source) =
      packedValue (hosts.map destination) + packedValue (hosts.map source)) :
    (again.chain .sbcd back).1 = kept := by
  obtain ⟨hpacked, hcount, hadded, -⟩ := sums_abcd.chain cpu hs hd
  have hsize : back.length = hosts.length := by
    rw [← hcount, ← hback, length_map]
  rw [← hback] at hpacked hadded
  obtain ⟨hrest, hcount', htaken, -⟩ := sums_sbcd.chain again (forall_mem_map.mp hsource)
    (forall_mem_map.mp hpacked)
  have hlt := packedValue_lt hrest
  have hlt' := packedValue_lt hkept
  refine packedValue_inj hrest hkept (hcount'.trans (hsize.trans hlength.symm)) ?_
  rw [hcount', hsize] at hlt
  rw [hlength] at hlt'
  rw [hsize, hx] at htaken
  -- The two numbers differ by a multiple of 100^n, and both are less than that.
  generalize (cpu.chain .abcd hosts).2.registers.flag .x = carry at hadded
  generalize (again.chain .sbcd back).2.registers.flag .x = borrow at htaken
  zify at hlt hlt' hsum ⊢
  generalize (100 : ℤ) ^ hosts.length = power at *
  cases carry <;> cases borrow <;>
    simp only [Bool.toNat_true, Bool.toNat_false, Nat.cast_one, Nat.cast_zero] at hadded htaken <;>
    omega

end Cpu

open Cpu

/-- Decimal chains compute decimal numbers. Let packed bytes be added, or subtracted, one after
another from the least significant on. What is left are the packed bytes of the sum with X, or of
the difference less X, modulo 100^n; X and C are the carry, or the borrow, of the whole number; and
Z is left set if it was set and all bytes are zero. Operands of NBCD are taken away from zero.
Subtracting one of two numbers from their sum gives the other. -/
theorem decimal_chains_compute (cpu : Cpu) {hosts : List State} (hsome : hosts ≠ [])
    (hs : ∀ host ∈ hosts, IsPacked host.source)
    (hd : ∀ host ∈ hosts, IsPacked host.destination) :
    let n := hosts.length
    let s : ℤ := packedValue (hosts.map source)
    let d : ℤ := packedValue (hosts.map destination)
    let x : ℤ := (cpu.registers.flag .x).toNat
    Chained cpu n (d + s + x) (decide (100 ^ n ≤ d + s + x)) (cpu.chain .abcd hosts) ∧
    Chained cpu n (d - s - x) (decide (d - s - x < 0)) (cpu.chain .sbcd hosts) ∧
    Chained cpu n (0 - s - x) (decide (0 - s - x < 0))
      (cpu.chain .sbcd (hosts.map fromZero)) ∧
    ∀ (again : Cpu) (back : List State), again.registers.flag .x = cpu.registers.flag .x →
      back.map destination = (cpu.chain .abcd hosts).1 →
      (back.map source = hosts.map source →
        (again.chain .sbcd back).1 = hosts.map destination) ∧
      (back.map source = hosts.map destination →
        (again.chain .sbcd back).1 = hosts.map source) := by
  intro n s d x
  have hsources : (hosts.map fromZero).map source = hosts.map source := by
    rw [map_map]
    exact map_congr_left fun host _ => host.source_fromZero
  have hzero : (hosts.map fromZero).map destination = replicate n 0 := by
    rw [map_map, ← map_const']
    exact map_congr_left fun host _ => host.destination_fromZero
  have hnothing : packedValue (replicate n 0) = 0 := by
    rw [packedValue, map_replicate]
    exact Nat.ofDigits_replicate_zero
  have hnegated := sums_sbcd.chained cpu (mt map_eq_nil_iff.mp hsome)
    (forall_mem_map.mpr fun host hhost => host.source_fromZero ▸ hs host hhost)
    (forall_mem_map.mpr fun host _ => host.destination_fromZero ▸ by decide) rfl
    fun _ _ => borrow_of_difference
  rw [hsources, hzero, hnothing, length_map] at hnegated
  refine ⟨sums_abcd.chained cpu hsome hs hd (by ring) fun _ _ => carry_of_sum,
    sums_sbcd.chained cpu hsome hs hd (by ring) fun _ _ => borrow_of_difference, ?_, ?_⟩
  · have hnumber : (0 : ℤ) - s - x = (0 : ℕ) + -1 * (s + x) := by ring
    rw [hnumber]
    exact hnegated
  · intro again back hx hback
    exact ⟨fun hsource => chain_back hs hd hx hback (forall_mem_map.mpr hd)
        (length_map _) (hsource ▸ forall_mem_map.mpr hs) (by rw [hsource]),
      fun hsource => chain_back hs hd hx hback (forall_mem_map.mpr hs)
        (length_map _) (hsource ▸ forall_mem_map.mpr hd)
        (by rw [hsource, Nat.add_comm])⟩

/-- 5401 + 4599 + 1, and what NBCD makes of 4599. -/
theorem decimal_chains_compute_twice :
    ∃ (cpu : Cpu) (hosts : List State), hosts.map source = [0x99, 0x45] ∧
      hosts.map destination = [0x01, 0x54] ∧
      Chained cpu 2 10001 true (cpu.chain .abcd hosts) ∧
      Chained cpu 2 (-4600) true (cpu.chain .sbcd (hosts.map fromZero)) := by
  let cpu := (Cpu.fresh .default (.nothing 0xFFFFFF)).setFlag .x true
  let host (s d : UInt32) := (initial.setReg Role.scratch1 s).setReg Role.scratch2 d
  let hosts := [host 0x99 0x01, host 0x45 0x54]
  have hs : ∀ host ∈ hosts, IsPacked host.source := by decide
  have hd : ∀ host ∈ hosts, IsPacked host.destination := by decide
  have hfirst : packedValue (hosts.map source) = 4599 := by decide
  have hsecond : packedValue (hosts.map destination) = 5401 := by decide
  have hextend : cpu.registers.flag .x = true := by decide
  have hcomputed := @decimal_chains_compute cpu hosts (cons_ne_nil _ _) hs hd
  rw [hfirst, hsecond, hextend] at hcomputed
  have hcarry : decide ((100 : ℤ) ^ 2 ≤ 10001) = true := by decide
  obtain ⟨hsum, -, hnegated, -⟩ := hcomputed
  exact ⟨cpu, hosts, by decide, by decide, hcarry ▸ hsum, hnegated⟩

end Dynarec68k
