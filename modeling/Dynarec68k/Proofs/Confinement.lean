import Dynarec68k.Proofs.ServiceChanges
import Mathlib.Data.Nat.Bitwise

namespace Dynarec68k

open Host RegisterFile

variable (file : RegisterFile) (value : UInt8)

namespace RegisterFile

theorem status_setByte {offset : Nat} (h : offset < statusOffset) :
    (file.setByte offset value).status = file.status := by
  rw [status, byteAt_setByte _ _ _ _ (Nat.lt_trans h (by decide)), if_neg (Nat.ne_of_gt h), status]

theorem status_setA (n : Nat) (value : UInt32) : (file.setA n value).status = file.status := by
  have hoffset : addressOffset + 4 * min n 8 + Size.long.bytes ≤ statusOffset := by
    simp only [addressOffset, statusOffset, Size.bytes]
    omega
  exact (byteAt_put file value (Nat.le_trans hoffset (by decide)) statusOffset).trans
    (if_neg (by omega))

theorem status_setStatus : (file.setStatus value).status = value := by
  rw [status, setStatus, byteAt_setByte _ _ _ _ (by decide), if_pos rfl]

theorem status_setFlag (flag : Flag) (value : Bool) :
    (file.setFlag flag value).status = file.status :=
  status_setByte file _ (by cases flag <;> decide)

theorem status_setCcr (ccr : UInt8) : (file.setCcr ccr).status = file.status := by
  unfold setCcr
  induction Flag.all generalizing file with
  | nil => rfl
  | cons flag rest ih => exact (ih _).trans (status_setFlag file flag _)

theorem testBit_sr {i : Nat} (hi : i < 8) :
    file.sr.toNat.testBit (8 + i) = file.status.toNat.testBit i := by
  have hccr : file.ccr.toNat.testBit (8 + i) = false :=
    Nat.testBit_lt_two_pow (Nat.lt_of_lt_of_le file.ccr.toNat_lt (Nat.pow_le_pow_right (by decide)
      (Nat.le_add_right 8 i)))
  have hlt : 8 + i < 16 := by omega
  have hshift : (file.status.toNat <<< 8 % 2 ^ 16).testBit (8 + i) = file.status.toNat.testBit i := by
    rw [Nat.testBit_mod_two_pow, decide_eq_true hlt, Nat.testBit_shiftLeft,
      decide_eq_true (Nat.le_add_right 8 i), Nat.add_sub_cancel_left]
    rfl
  simp only [sr, UInt16.toNat_or, UInt8.toNat_toUInt16, Nat.testBit_or, hccr, Bool.or_false]
  exact hshift

theorem supervisor_eq_testBit : file.supervisor = file.status.toNat.testBit 5 := by
  have hand : (file.status &&& 0x20).toNat = (file.status.toNat.testBit 5).toNat * 2 ^ 5 := by
    rw [UInt8.toNat_and]
    exact Nat.and_two_pow _ 5
  cases hbit : file.status.toNat.testBit 5 with
  | false =>
    rw [hbit] at hand
    have hzero : file.status &&& 0x20 = 0 := UInt8.toNat_inj.mp hand
    simp [supervisor, hzero]
  | true =>
    rw [hbit] at hand
    have hne : file.status &&& 0x20 ≠ 0 := by
      intro hzero
      rw [hzero] at hand
      exact absurd hand (by decide)
    simp [supervisor, hne]

end RegisterFile

namespace Cpu

variable (cpu : Cpu)

theorem status_swapStacks (registers : RegisterFile) :
    (swapStacks registers).status = registers.status := by
  rw [swapStacks, status_setA, status_setA]

theorem status_setSr (sr : UInt16) :
    (cpu.setSr sr).registers.status = ((sr &&& statusMask) >>> 8).toUInt8 := by
  have hloaded : ((cpu.registers.setStatus ((sr &&& statusMask) >>> 8).toUInt8).setCcr
      (sr &&& statusMask).toUInt8).status = ((sr &&& statusMask) >>> 8).toUInt8 := by
    rw [status_setCcr, status_setStatus]
  simp only [setSr, updateLimit]
  split
  · exact hloaded
  · rw [status_swapStacks]
    exact hloaded

theorem supervisor_setSr (sr : UInt16) :
    (cpu.setSr sr).registers.supervisor = sr.toNat.testBit 13 := by
  rw [supervisor_eq_testBit, status_setSr, statusMask]
  change (((sr &&& 0xA71F).toNat >>> 8) % 2 ^ 8).testBit 5 = _
  rw [Nat.testBit_mod_two_pow, Nat.testBit_shiftRight, UInt16.toNat_and, Nat.testBit_and]
  exact Bool.and_true _

theorem supervisor_enterSupervisor : cpu.enterSupervisor.registers.supervisor = true := by
  rw [enterSupervisor, supervisor_setSr]
  rw [UInt16.toNat_and, UInt16.toNat_or, Nat.testBit_and, Nat.testBit_or]
  exact congrArg (· && true) (Bool.or_true _)

theorem registers_write16 (address : UInt32) (value : UInt16) :
    (cpu.write16 address value).registers = cpu.registers := by
  simp only [write16, afterWrite]
  split <;> rfl

theorem registers_write32 (address value : UInt32) :
    (cpu.write32 address value).registers = cpu.registers := by
  simp only [write32, afterWrite]
  split <;> rfl

end Cpu

/-- An exception was taken and counted, and led to supervisor mode. -/
structure Cpu.Trapped (x x' : Cpu) : Prop where
  counted : x.counters.exceptions < x'.counters.exceptions
  supervisor : x'.registers.supervisor = true

/-- Exceptions are counted and lead to supervisor mode, and as long as none is taken what user mode
keeps stays. -/
structure Cpu.Confined (x x' : Cpu) : Prop where
  counted : x.counters.exceptions ≤ x'.counters.exceptions
  kept : x'.counters.exceptions = x.counters.exceptions →
    ∀ k, Kept true k → x'.registers.byteAt k = x.registers.byteAt k
  supervisor : x.counters.exceptions < x'.counters.exceptions → x'.registers.supervisor = true

namespace Cpu.Confined

variable {x y z : Cpu}

theorem of_eq (hregisters : y.registers = x.registers) (hcounters : y.counters = x.counters) :
    Confined x y := by
  refine ⟨by rw [hcounters], ?_, ?_⟩
  · intro _ k _
    rw [hregisters]
  · intro hlt
    rw [hcounters] at hlt
    exact absurd hlt (Nat.lt_irrefl _)

theorem of_trapped (h : Trapped x y) : Confined x y := by
  refine ⟨Nat.le_of_lt h.counted, ?_, fun _ => h.supervisor⟩
  intro heq
  exact absurd heq (Nat.ne_of_gt h.counted)

theorem trans (h : Confined x y) (h' : Confined y z) : Confined x z := by
  have hxy := h.counted
  have hyz := h'.counted
  refine ⟨Nat.le_trans hxy hyz, ?_, ?_⟩
  · intro heq k hk
    rw [h'.kept (by omega) k hk, h.kept (by omega) k hk]
  · intro hlt
    rcases Nat.eq_or_lt_of_le hyz with heq | hlt'
    · have hstatus : z.registers.status = y.registers.status :=
        h'.kept heq.symm _ (.inr rfl)
      rw [RegisterFile.supervisor, hstatus]
      exact h.supervisor (by omega)
    · exact h'.supervisor hlt'

theorem setFlag (flag : Flag) (value : Bool) : Confined x (x.setFlag flag value) := by
  refine ⟨Nat.le_refl _, fun _ k hk => ?_, fun hlt => absurd hlt (Nat.lt_irrefl _)⟩
  have hstatus : RegisterFile.statusOffset = 73 := rfl
  have hflag : 68 ≤ RegisterFile.flagOffset flag ∧ RegisterFile.flagOffset flag < 73 := by
    cases flag <;> decide
  simp only [Cpu.setFlag, RegisterFile.setFlag]
  rw [RegisterFile.byteAt_setByte _ _ _ _ (by rw [registerFileSize]; omega), if_neg]
  rcases hk with ⟨-, hk⟩ | rfl <;> omega

end Cpu.Confined

namespace Cpu

variable (cpu : Cpu) (vector : Nat) (address : UInt32) (value : UInt16) (pc : UInt32) (host : State)
  {x y z : Cpu} {service : Service}

theorem counters_setSr (sr : UInt16) : (cpu.setSr sr).counters = cpu.counters :=
  rfl

theorem counters_write16 : (cpu.write16 address value).counters = cpu.counters := by
  simp only [write16, afterWrite]
  split <;> rfl

theorem counters_write32 (address value : UInt32) :
    (cpu.write32 address value).counters = cpu.counters := by
  simp only [write32, afterWrite]
  split <;> rfl

theorem counters_push16 : (cpu.push16 value).counters = cpu.counters := by
  simp only [push16, setA, counters_write16]

theorem counters_push32 (value : UInt32) : (cpu.push32 value).counters = cpu.counters := by
  simp only [push32, setA, counters_write32]

theorem supervisor_push16 : (cpu.push16 value).registers.supervisor = cpu.registers.supervisor := by
  rw [push16, setA, supervisor, status_setA, registers_write16]
  rfl

theorem supervisor_push32 (value : UInt32) :
    (cpu.push32 value).registers.supervisor = cpu.registers.supervisor := by
  rw [push32, setA, supervisor, status_setA, registers_write32]
  rfl

theorem trapped_vectorTo (hsupervisor : cpu.registers.supervisor = true) (vector : Nat) :
    Trapped cpu (cpu.vectorTo vector).2 := by
  constructor
  · simp only [vectorTo]
    split <;> exact Nat.lt_succ_self _
  · simp only [vectorTo]
    split <;> exact hsupervisor

theorem Trapped.congr (h : Trapped y z) (hcounters : y.counters = x.counters) : Trapped x z :=
  ⟨hcounters ▸ h.counted, h.supervisor⟩

theorem Trapped.confined (h : Trapped x y) (h' : Confined y z) : Trapped x z where
  counted := Nat.lt_of_lt_of_le h.counted h'.counted
  supervisor := ((Confined.of_trapped h).trans h').supervisor
    (Nat.lt_of_lt_of_le h.counted h'.counted)

theorem trapped_enterException : Trapped cpu (cpu.enterException vector pc).2 := by
  refine Trapped.congr (trapped_vectorTo _ ?_ vector) ?_
  · rw [supervisor_push16, supervisor_push32, supervisor_enterSupervisor]
  · rw [counters_push16, counters_push32]
    rfl

theorem trapped_handle (hsupervisor : cpu.registers.supervisor = true) (vector : Nat) :
    Trapped cpu (cpu.handle vector).2 := by
  have hvector := cpu.trapped_vectorTo hsupervisor vector
  rcases cpu.vectorTo_cases vector with ⟨target, -, hok⟩ | ⟨e, -, herror⟩
  · rw [handle_ok hok]
    exact ⟨hvector.counted, hvector.supervisor⟩
  · rw [handle_error herror]
    exact hvector

theorem trapped_takeAddressError (fault : AddressFault) :
    Trapped cpu (cpu.takeAddressError fault).2 := by
  have hopcode : (cpu.faultOpcode fault).2.counters = cpu.counters := by
    unfold faultOpcode
    cases fault.origin <;> rfl
  have hframed : (cpu.framed fault).counters = cpu.counters := by
    rw [framed, counters_push16, counters_push32, counters_push16, counters_push16, counters_push32,
      enterSupervisor, counters_setSr]
    exact hopcode
  rw [takeAddressError_eq]
  refine Trapped.congr (trapped_handle _ ?_ _) hframed
  rw [framed, supervisor_push16, supervisor_push32, supervisor_push16, supervisor_push16,
    supervisor_push32, supervisor_enterSupervisor]

theorem confined_resolve (origin : Option UInt32) :
    Confined cpu (cpu.resolve address origin).2 := by
  unfold resolve
  split
  · exact .of_eq rfl rfl
  · exact .of_trapped (cpu.trapped_takeAddressError _)

theorem trapped_takeException : Trapped cpu (cpu.takeException vector pc).2 := by
  have henter := cpu.trapped_enterException vector pc
  simp only [takeException]
  generalize cpu.enterException vector pc = r at henter ⊢
  obtain ⟨handler, taken⟩ := r
  cases handler with
  | error e => exact henter
  | ok handler => exact henter.confined (taken.confined_resolve handler none)

theorem trapped_takeInterrupt (level : UInt8) (pc : UInt32) :
    Trapped cpu (cpu.takeInterrupt level pc).2 := by
  have hseen : (cpu.acknowledge level).counters.exceptions = cpu.counters.exceptions := by
    simp only [acknowledge]
    split <;> rfl
  have henter := (cpu.acknowledge level).trapped_enterException
    (ExceptionVector.autovector + level.toNat) pc
  simp only [takeInterrupt]
  generalize (cpu.acknowledge level).enterException (ExceptionVector.autovector + level.toNat) pc =
    r at henter ⊢
  obtain ⟨handler, taken⟩ := r
  have htaken : Trapped cpu taken := ⟨hseen ▸ henter.counted, henter.supervisor⟩
  cases handler with
  | error e => exact htaken
  | ok handler =>
    have hmasked (sr : UInt16) (hsr : sr.toNat.testBit 13 = true) :
        Trapped cpu ((taken.setSr sr).resolve handler none).2 :=
      Trapped.confined (y := taken.setSr sr)
        ⟨htaken.counted, (taken.supervisor_setSr sr).trans hsr⟩ (confined_resolve _ handler none)
    -- the mask lies below the supervisor bit
    have hbit := taken.registers.testBit_sr (i := 5) (by decide)
    rw [← supervisor_eq_testBit, htaken.supervisor] at hbit
    apply hmasked
    rw [UInt16.toNat_or, UInt16.toNat_and, Nat.testBit_or, Nat.testBit_and, hbit]
    rfl

/-- All but the loading of the status register leaves alone what user mode keeps, or takes an
exception. -/
theorem attentive_confined : Attentive Confined where
  trans := Confined.trans
  pass _ _ _ := .of_eq rfl rfl
  setFlag _ flag value := .setFlag flag value
  afterWrite _ _ _ action := by
    cases action <;> exact .of_eq rfl rfl
  note _ _ _ _ _ _ :=
    ⟨Nat.le_refl _, fun _ _ _ => rfl, fun hlt => absurd hlt (Nat.lt_irrefl _)⟩
  locate _ _ := .of_eq rfl rfl
  addressError cpu fault := .of_trapped (cpu.trapped_takeAddressError fault)
  exception cpu vector pc := .of_trapped (cpu.trapped_takeException vector pc)
  refresh _ _ := .of_eq rfl rfl
  restoreBoundary _ _ _ := .of_eq rfl rfl
  latch _ := .of_eq rfl rfl
  forget _ _ _ _ _ := .of_eq rfl rfl
  interrupt cpu level pc := .of_trapped (cpu.trapped_takeInterrupt level pc)

theorem confined_serve (h : service.privileged = false) :
    Confined cpu (cpu.serve host service).cpu :=
  attentive_confined.serve host fun hprivileged => absurd (h.symm.trans hprivileged) (by decide)

theorem attentive_exceptions :
    Attentive fun x y => x.counters.exceptions ≤ y.counters.exceptions where
  trans := Nat.le_trans
  pass _ _ _ := Nat.le_refl _
  setFlag _ _ _ := Nat.le_refl _
  afterWrite x address bytes action := (attentive_confined.afterWrite x address bytes action).counted
  note _ _ _ _ _ _ := Nat.le_refl _
  locate _ _ := Nat.le_refl _
  addressError cpu fault := Nat.le_of_lt (cpu.trapped_takeAddressError fault).counted
  exception cpu vector pc := Nat.le_of_lt (cpu.trapped_takeException vector pc).counted
  refresh _ _ := Nat.le_refl _
  restoreBoundary _ _ _ := Nat.le_refl _
  latch _ := Nat.le_refl _
  forget _ _ _ _ _ := Nat.le_refl _
  interrupt cpu level pc := Nat.le_of_lt (cpu.trapped_takeInterrupt level pc).counted

theorem exceptions_serve (service : Service) :
    cpu.counters.exceptions ≤ (cpu.serve host service).cpu.counters.exceptions :=
  attentive_exceptions.serve host fun _ => ⟨fun _ _ => Nat.le_refl _, fun _ _ _ => Nat.le_refl _⟩

/-- What of a processor the code of an instruction cannot change: all but its registers, its clock,
memory, compiled code and whether it is to return. -/
def outer : Cpu :=
  { cpu with
    registers := .zero
    cycle := 0
    limit := 0
    memory := ⟨#[], 0, #[]⟩
    store := .initial
    returnRequested := false }

theorem quiet_outer : Quiet fun x y => y.outer = x.outer where
  trans h h' := h'.trans h
  pass _ _ _ := rfl
  setFlag _ _ _ := rfl
  afterWrite _ _ _ action := by
    cases action <;> rfl

theorem outer_serve (hservice : service.GivesBack)
    (hproceed : (cpu.serve host service).outcome = .proceed) :
    (cpu.serve host service).cpu.outer = cpu.outer :=
  quiet_outer.serve host hservice (fun _ _ => rfl) (.inl hproceed)

end Cpu

end Dynarec68k
