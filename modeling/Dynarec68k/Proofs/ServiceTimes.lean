import Dynarec68k.Proofs.InterruptRequests

namespace Dynarec68k

open Host ExceptionVector

/-- A clock that goes, and has room for the time of an instruction. -/
structure Config.Ticks (config : Config) : Prop where
  positive : 0 < config.clockDivider.toNat
  room : 1024 * config.clockDivider.toNat ≤ 2 ^ 32

theorem Config.Ticks.toNat_cycles {config : Config} (ht : config.Ticks) {clocks : Nat}
    (h : clocks < 1024) :
    (config.cycles clocks).toNat = clocks * config.clockDivider.toNat := by
  have hroom := ht.room
  have hlt : clocks * config.clockDivider.toNat < 1024 * config.clockDivider.toNat :=
    Nat.mul_lt_mul_of_pos_right h ht.positive
  have hsmall : clocks < UInt32.size := Nat.lt_trans h (by decide)
  rw [Config.cycles, UInt32.toNat_mul, UInt32.toNat_ofNat_of_lt' hsmall,
    Nat.mod_eq_of_lt (by omega)]

/-- The clock of a processor and the end of its run. -/
@[ext]
structure Schedule where
  config : Config
  target : UInt32
  cycle : UInt32

/-- So many processor clocks later. -/
def Schedule.later (s : Schedule) (clocks : Nat) : Schedule :=
  { s with cycle := s.cycle + s.config.cycles clocks }

theorem Schedule.later_zero (s : Schedule) : s.later 0 = s := by
  have hnone : s.config.cycles 0 = 0 := UInt32.zero_mul
  rw [later, hnone, UInt32.add_zero]

def Cpu.schedule (cpu : Cpu) : Schedule where
  config := cpu.config
  target := cpu.target
  cycle := cpu.cycle

namespace ExceptionVector

theorem clocks_bounds (vector : Nat) : 30 ≤ clocks vector ∧ clocks vector ≤ 50 := by
  unfold clocks
  split_ifs <;> decide

end ExceptionVector

namespace Cpu

variable (cpu : Cpu) (vector : Nat) (address : UInt32) (pc : UInt32) (fault : AddressFault)
  {service : Service} {accesses : Nat} {size : Size}

theorem schedule_afterWrite (bytes : Nat) (action : DeviceAction) :
    (cpu.afterWrite address bytes action).schedule = cpu.schedule := by
  cases action <;> rfl

theorem schedule_setA (n : Nat) (value : UInt32) : (cpu.setA n value).schedule = cpu.schedule :=
  rfl

theorem schedule_setSr (sr : UInt16) : (cpu.setSr sr).schedule = cpu.schedule :=
  rfl

theorem schedule_setFlag (flag : Flag) (on : Bool) :
    (cpu.setFlag flag on).schedule = cpu.schedule :=
  rfl

theorem schedule_read16 : (cpu.read16 address).2.schedule = cpu.schedule :=
  rfl

theorem schedule_read32 : (cpu.read32 address).2.schedule = cpu.schedule :=
  rfl

theorem schedule_push16 (value : UInt16) : (cpu.push16 value).schedule = cpu.schedule := by
  rw [push16, schedule_setA]
  exact schedule_afterWrite _ _ _ _

theorem schedule_push32 (value : UInt32) : (cpu.push32 value).schedule = cpu.schedule := by
  rw [push32, schedule_setA]
  exact schedule_afterWrite _ _ _ _

theorem schedule_vectorTo :
    (cpu.vectorTo vector).2.schedule = cpu.schedule.later (clocks vector) := by
  simp only [vectorTo]
  split <;> rfl

theorem schedule_enterException :
    (cpu.enterException vector pc).2.schedule =
      cpu.schedule.later (clocks vector) := by
  rw [enterException, schedule_vectorTo, schedule_push16, schedule_push32]
  rfl

theorem schedule_framed : (cpu.framed fault).schedule = cpu.schedule := by
  simp only [framed, schedule_push16, schedule_push32]
  unfold faultOpcode
  split <;> rfl

theorem schedule_handle :
    (cpu.handle vector).2.schedule = cpu.schedule.later (clocks vector) := by
  rw [← schedule_vectorTo]
  unfold handle
  split
  · rename_i heq
    rw [heq]
  · rename_i heq
    rw [heq]
    rfl

theorem schedule_takeAddressError :
    (cpu.takeAddressError fault).2.schedule = cpu.schedule.later 50 := by
  rw [takeAddressError_eq, schedule_handle, schedule_framed]
  rfl

theorem schedule_resolve_even {address : UInt32} (h : address &&& 1 = 0) (origin : Option UInt32) :
    (cpu.resolve address origin).2.schedule = cpu.schedule := by
  rw [resolve, if_pos h]
  rfl

theorem schedule_resolve (origin : Option UInt32) :
    ∃ clocks ≤ 50, (cpu.resolve address origin).2.schedule = cpu.schedule.later clocks := by
  by_cases h : address &&& 1 = 0
  · refine ⟨0, by decide, ?_⟩
    rw [schedule_resolve_even cpu h, Schedule.later_zero]
  · refine ⟨50, by decide, ?_⟩
    rw [resolve, if_neg h]
    exact cpu.schedule_takeAddressError _

theorem enterException_even {vector : Nat} {pc handler : UInt32}
    (h : (cpu.enterException vector pc).1 = .ok handler) : handler &&& 1 = 0 := by
  unfold enterException at h
  rcases vectorTo_cases ((cpu.enterSupervisor.push32 pc).push16 cpu.registers.sr) vector with
    ⟨target, heven, hok⟩ | ⟨e, -, herror⟩
  · rw [hok] at h
    cases h
    exact heven
  · rw [herror] at h
    cases h

theorem schedule_takeException :
    (cpu.takeException vector pc).2.schedule =
      cpu.schedule.later (clocks vector) := by
  have hentered := cpu.schedule_enterException vector pc
  unfold takeException
  split
  · rename_i heq
    rw [heq] at hentered
    exact hentered
  · rename_i handler c heq
    have heven : handler &&& 1 = 0 := cpu.enterException_even (congrArg Prod.fst heq)
    rw [heq] at hentered
    rw [schedule_resolve_even _ heven]
    exact hentered

theorem schedule_takeInterrupt (level : UInt8) (pc : UInt32) :
    (cpu.takeInterrupt level pc).2.schedule =
      cpu.schedule.later (clocks (autovector + level.toNat)) := by
  have hnoted : (cpu.acknowledge level).schedule = cpu.schedule := by
    simp only [acknowledge]
    split <;> rfl
  have hentered := (cpu.acknowledge level).schedule_enterException
    (autovector + level.toNat) pc
  rw [hnoted] at hentered
  unfold takeInterrupt
  split
  · rename_i heq
    rw [heq] at hentered
    exact hentered
  · rename_i handler c heq
    have heven : handler &&& 1 = 0 := enterException_even _ (congrArg Prod.fst heq)
    rw [heq] at hentered
    rw [schedule_resolve_even _ heven]
    exact hentered

theorem schedule_returnFromException (origin : Option UInt32) :
    ∃ clocks ≤ 50, (cpu.returnFromException origin).2.schedule = cpu.schedule.later clocks := by
  have hpc (c : Cpu) (pc : UInt32) : Cpu.schedule { c with pc := pc } = c.schedule := rfl
  simp only [returnFromException]
  obtain ⟨clocks, hmost, hresolved⟩ := schedule_resolve _ _ _
  refine ⟨clocks, hmost, hresolved.trans ?_⟩
  rw [hpc, schedule_setSr, schedule_setA, schedule_read32, schedule_read16]

theorem schedule_spendBus (accesses : Nat) :
    (cpu.spendBus accesses.toUInt32).schedule = cpu.schedule.later (accesses * 4) := by
  have hproduct : (accesses * 4).toUInt32 = accesses.toUInt32 * 4 := UInt32.ofNat_mul _ _
  rw [spendBus, Config.busCycles, Config.cycles, Schedule.later, Config.cycles, hproduct,
    UInt32.mul_assoc]
  rfl

/-- A service gave back control, and took as long as it should. -/
def Served.Returns (served : Served) (service : Service) : Prop :=
  served.outcome = .proceed ∧ ∃ clocks, service.leastClocks ≤ clocks ∧
    clocks ≤ service.mostClocks ∧ served.cpu.schedule = cpu.schedule.later clocks

/-- There was an exception, and time went by for it. -/
def Served.Faults (served : Served) : Prop :=
  (∃ entry, served.outcome = .ofEntry entry) ∧
    ∃ clocks, 0 < clocks ∧ clocks ≤ 50 ∧ served.cpu.schedule = cpu.schedule.later clocks

theorem oddAccess_faults (host : State) (address : UInt32) (kind : FaultKind) :
    Served.Faults cpu (cpu.oddAccess host address kind) :=
  ⟨⟨_, rfl⟩, 50, by decide, by decide, cpu.schedule_takeAddressError _⟩

theorem takeException_faults : Served.Faults cpu (.ofEntry (cpu.takeException vector pc)) := by
  obtain ⟨hleast, hmost⟩ := clocks_bounds vector
  exact ⟨⟨_, rfl⟩, _, Nat.lt_of_lt_of_le (by decide) hleast, hmost,
    cpu.schedule_takeException vector pc⟩

theorem serveRead_times (hleast : service.leastClocks ≤ accesses * 4)
    (hmost : accesses * 4 ≤ service.mostClocks) (host : State)
    (hsize : accesses = if size = .long then 2 else 1) (address : UInt32) :
    Served.Returns cpu (cpu.serveRead host size address) service ∨
      Served.Faults cpu (cpu.serveRead host size address) := by
  have hbus := cpu.schedule_spendBus accesses
  unfold serveRead
  split
  · exact .inr (cpu.oddAccess_faults host address .read)
  · refine .inl ?_
    subst hsize
    cases size with
    | byte => exact ⟨rfl, _, hleast, hmost, hbus⟩
    | word => exact ⟨rfl, _, hleast, hmost, hbus⟩
    | long => exact ⟨rfl, _, hleast, hmost, hbus⟩

theorem serveWrite_times (hleast : service.leastClocks ≤ accesses * 4)
    (hmost : accesses * 4 ≤ service.mostClocks) (host : State)
    (hsize : accesses = if size = .long then 2 else 1) (lowFirst : Bool) (address value : UInt32) :
    Served.Returns cpu (cpu.serveWrite host size lowFirst address value) service ∨
      Served.Faults cpu (cpu.serveWrite host size lowFirst address value) := by
  have hbus := cpu.schedule_spendBus accesses
  unfold serveWrite
  split
  · exact .inr (cpu.oddAccess_faults host address .write)
  · refine .inl ?_
    subst hsize
    cases size with
    | byte | word => exact ⟨rfl, _, hleast, hmost, (schedule_afterWrite _ _ _ _).trans hbus⟩
    | long =>
      cases lowFirst <;>
        exact ⟨rfl, _, hleast, hmost, (schedule_afterWrite _ _ _ _).trans hbus⟩

end Cpu

namespace Arithmetic

theorem mulUnsignedClocks_bounds (source : UInt16) :
    38 ≤ mulUnsignedClocks source ∧ mulUnsignedClocks source ≤ 70 := by
  have hfew : Word.population source ≤ 16 := List.countP_le_length
  unfold mulUnsignedClocks
  omega

theorem mulSignedClocks_bounds (source : UInt16) :
    38 ≤ mulSignedClocks source ∧ mulSignedClocks source ≤ 70 := by
  have hfew : Word.population (source ^^^ (source <<< 1)) ≤ 16 := List.countP_le_length
  unfold mulSignedClocks
  omega

theorem divUnsignedSteps_le (divisor : UInt32) (steps : Nat) (dividend : UInt32) :
    divUnsignedSteps divisor steps dividend ≤ 2 * steps := by
  induction steps generalizing dividend with
  | zero => exact Nat.le_refl 0
  | succ steps ih =>
    have hsubtracted := ih (dividend <<< 1 - divisor)
    have hshifted := ih (dividend <<< 1)
    rw [divUnsignedSteps]
    split_ifs <;> omega

theorem divUnsignedClocks_bounds (dividend : UInt32) (divisor : UInt16) :
    10 ≤ divUnsignedClocks dividend divisor ∧ divUnsignedClocks dividend divisor ≤ 156 := by
  have hsteps := divUnsignedSteps_le (divisor.toUInt32 <<< 16) 15 dividend
  unfold divUnsignedClocks
  split_ifs <;> omega

theorem divSignedClocks_bounds (dividend : Int32) (divisor : Int16) :
    10 ≤ divSignedClocks dividend divisor ∧ divSignedClocks dividend divisor ≤ 156 := by
  have hclear (value : Nat) : clearUpperBits value ≤ 15 := List.countP_le_length
  have hbits := hclear (dividend.toInt.natAbs / divisor.toInt.natAbs)
  simp only [divSignedClocks]
  split_ifs <;> omega

end Arithmetic

namespace Cpu

variable (cpu : Cpu) (signed : Bool) {service : Service}

section

variable {β : Type} {f : Cpu → β} (hf : ∀ c flag on, f (setFlag c flag on) = f c)
include hf

theorem setLogicFlags_keeps (value : UInt32) : f (cpu.setLogicFlags value) = f cpu := by
  simp only [setLogicFlags, hf]

theorem quotientFlags_keeps (quotient : Arithmetic.Quotient) :
    f (cpu.quotientFlags quotient) = f cpu := by
  cases quotient <;> simp only [quotientFlags, hf]

theorem serveDecimal_keeps (subtract : Bool) (source destination : UInt8) :
    f (cpu.serveDecimal subtract source destination).cpu = f cpu := by
  simp only [serveDecimal, Served.value, decimalFlags, hf]
  split <;> split <;> simp only [hf]

end

theorem serveMultiply_times (hservice : service = .mulu ∨ service = .muls)
    (source destination : UInt16) :
    Served.Returns cpu (cpu.serveMultiply signed source destination) service := by
  have hbounds : service.leastClocks = 38 ∧ service.mostClocks = 70 := by
    rcases hservice with rfl | rfl <;> exact ⟨rfl, rfl⟩
  rw [Served.Returns, hbounds.1, hbounds.2]
  cases signed with
  | false =>
    obtain ⟨hleast, hmost⟩ := Arithmetic.mulUnsignedClocks_bounds source
    exact ⟨rfl, _, hleast, hmost, setLogicFlags_keeps _ schedule_setFlag _⟩
  | true =>
    obtain ⟨hleast, hmost⟩ := Arithmetic.mulSignedClocks_bounds source
    exact ⟨rfl, _, hleast, hmost, setLogicFlags_keeps _ schedule_setFlag _⟩

theorem serveDivide_times (hservice : service = .divu ∨ service = .divs) (divisor : UInt16)
    (dividend next : UInt32) :
    Served.Returns cpu (cpu.serveDivide signed divisor dividend next) service ∨
      Served.Faults cpu (cpu.serveDivide signed divisor dividend next) := by
  have hbounds : service.leastClocks = 10 ∧ service.mostClocks = 156 := by
    rcases hservice with rfl | rfl <;> exact ⟨rfl, rfl⟩
  have hflags (c : Cpu) := c.quotientFlags_keeps schedule_setFlag
  unfold serveDivide
  split
  · exact .inr ((cpu.setFlag .c false).takeException_faults _ _)
  · refine .inl ?_
    rw [Served.Returns, hbounds.1, hbounds.2]
    have hclocks : 10 ≤ (if signed then Arithmetic.divSignedClocks dividend.toInt32 divisor.toInt16
          else Arithmetic.divUnsignedClocks dividend divisor) ∧
        (if signed then Arithmetic.divSignedClocks dividend.toInt32 divisor.toInt16
          else Arithmetic.divUnsignedClocks dividend divisor) ≤ 156 := by
      split
      · exact Arithmetic.divSignedClocks_bounds _ _
      · exact Arithmetic.divUnsignedClocks_bounds _ _
    dsimp only
    split
    · exact ⟨rfl, _, hclocks.1, hclocks.2, hflags _ _⟩
    · exact ⟨rfl, _, hclocks.1, hclocks.2, hflags _ _⟩

theorem serve_times (hservice : service.GivesBack) (host : State) :
    Served.Returns cpu (cpu.serve host service) service ∨
      Served.Faults cpu (cpu.serve host service) := by
  have hidle {served : Served} (hleast : service.leastClocks = 0)
      (houtcome : served.outcome = .proceed) (hsame : served.cpu.schedule = cpu.schedule) :
      Served.Returns cpu served service := by
    refine ⟨houtcome, 0, Nat.le_of_eq hleast, Nat.zero_le _, ?_⟩
    rw [hsame, Schedule.later_zero]
  cases service with
  | read8 | read16 | read32 => exact cpu.serveRead_times (by decide) (by decide) host rfl _
  | write8 | write16 | write32 =>
    exact cpu.serveWrite_times (by decide) (by decide) host rfl false _ _
  | write32LowFirst => exact cpu.serveWrite_times (by decide) (by decide) host rfl true _ _
  | setSr => exact .inl (hidle rfl rfl rfl)
  | reset =>
    refine .inl (hidle rfl rfl ?_)
    simp only [serve, Served.done]
    split <;> rfl
  | mulu => exact .inl (cpu.serveMultiply_times _ (.inl rfl) _ _)
  | muls => exact .inl (cpu.serveMultiply_times _ (.inr rfl) _ _)
  | divu => exact cpu.serveDivide_times _ (.inl rfl) _ _ _
  | divs => exact cpu.serveDivide_times _ (.inr rfl) _ _ _
  | abcd | sbcd => exact .inl (hidle rfl rfl (cpu.serveDecimal_keeps schedule_setFlag ..))
  | _ => rcases hservice with hservice | hservice <;> cases hservice

theorem schedule_wake {level : UInt8} (h : cpu.wakeLevel? = some level) :
    ∃ clocks, 0 < clocks ∧ clocks ≤ 50 ∧
      cpu.wake.2.schedule = cpu.roused.schedule.later clocks := by
  obtain ⟨hleast, hmost⟩ := clocks_bounds (autovector + level.toNat)
  refine ⟨_, Nat.lt_of_lt_of_le (by decide) hleast, hmost, ?_⟩
  rw [wake_some h]
  exact cpu.roused.schedule_takeInterrupt level cpu.pc

end Cpu

end Dynarec68k
