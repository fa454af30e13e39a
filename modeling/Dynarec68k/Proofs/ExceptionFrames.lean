import Dynarec68k.Proofs.SampleRuns
import Dynarec68k.Proofs.StackPointers

namespace Dynarec68k

open Host ExceptionVector RegisterFile MemoryMap

variable {before cpu cpu' : Cpu} {m n vector : Nat} {sp x : UInt32}

namespace Cpu

def below (sp : UInt32) (n : Nat) : UInt32 :=
  sp - (2 * n).toUInt32

theorem below_below (sp : UInt32) (m n : Nat) : below (below sp m) n = below sp (n + m) := by
  rw [below, below, below, Nat.mul_add]
  rw [show (2 * n + 2 * m).toUInt32 = (2 * n).toUInt32 + (2 * m).toUInt32 from UInt32.ofNat_add ..]
  grind

theorem below_add (sp : UInt32) (m n : Nat) : below sp (n + m) + (2 * n).toUInt32 = below sp m := by
  rw [← below_below]
  exact UInt32.sub_add_cancel _ _

theorem below_even (h : sp &&& 1 = 0) (n : Nat) : below sp n &&& 1 = 0 := by
  refine sub_even h ?_
  rw [and_one_eq_zero]
  change 2 * n % 2 ^ 32 % 2 = 0
  omega

theorem memory_write16 (cpu : Cpu) (x : UInt32) (value : UInt16) :
    (cpu.write16 x value).memory = (cpu.memory.write16 x value).2 := by
  simp only [write16, afterWrite]
  split <;> rfl

theorem memory_write32 (cpu : Cpu) (x value : UInt32) :
    (cpu.write32 x value).memory = (cpu.memory.write32 x value).2 := by
  simp only [write32, afterWrite]
  split <;> rfl

theorem memory_push16 (cpu : Cpu) (value : UInt16) :
    (cpu.push16 value).memory = (cpu.memory.write16 (cpu.registers.a 7 - 2) value).2 := by
  rw [← memory_write16]
  rfl

theorem memory_push32 (cpu : Cpu) (value : UInt32) :
    (cpu.push32 value).memory = (cpu.memory.write32 (cpu.registers.a 7 - 4) value).2 := by
  rw [← memory_write32]
  rfl

theorem read16_eq {value : UInt16} (h : cpu.memory.read16 x = (value, cpu.memory)) :
    cpu.read16 x = (value, cpu) := by
  rw [read16, h]

theorem read32_eq {value : UInt32} (h : cpu.memory.read32 x = (value, cpu.memory)) :
    cpu.read32 x = (value, cpu) := by
  rw [read32, h]

theorem isRam_below {map : MemoryMap} (h : map.IsRam (below sp (n + m)) (2 * (n + m))) :
    map.IsRam (below sp (n + m)) (2 * n) ∧ map.IsRam (below sp m) (2 * m) := by
  rw [Nat.mul_add] at h
  obtain ⟨hfirst, hsecond, -⟩ := h.split
  rw [below_add] at hsecond
  exact ⟨hfirst, hsecond⟩

/-- Words have been pushed, the last of them first. -/
structure Pushed (cpu : Cpu) (words : List UInt16) (cpu' : Cpu) : Prop where
  registers : cpu'.registers = cpu.registers.setA 7 (below (cpu.registers.a 7) words.length)
  stored : cpu.memory.Stored (below (cpu.registers.a 7) words.length) words cpu'.memory

namespace Pushed

variable {words : List UInt16}

theorem start (cpu : Cpu) : Pushed cpu [] cpu where
  registers := by
    rw [List.length_nil, show below (cpu.registers.a 7) 0 = cpu.registers.a 7 from
      UInt32.sub_zero _, setA_self]
  stored := ⟨.refl _, rfl, fun _ _ => rfl⟩

variable (hram : cpu.memory.IsRam (below (cpu.registers.a 7) n) (2 * n))
  (heven : cpu.registers.a 7 &&& 1 = 0) (h : Pushed cpu words cpu')
include hram heven h

theorem push {next : Cpu} (ws : List UInt16) (hfits : ws.length + words.length ≤ n)
    (hregisters : next.registers =
      cpu'.registers.setA 7 (below (cpu'.registers.a 7) ws.length))
    (hstored : cpu'.memory.IsRam (below (cpu'.registers.a 7) ws.length) (2 * ws.length) →
      below (cpu'.registers.a 7) ws.length &&& 1 = 0 →
      cpu'.memory.Stored (below (cpu'.registers.a 7) ws.length) ws next.memory) :
    Pushed cpu (ws ++ words) next := by
  have hpointer : below (cpu'.registers.a 7) ws.length =
      below (cpu.registers.a 7) (ws.length + words.length) := by
    rw [h.registers, a_setA, if_pos rfl, below_below]
  obtain ⟨j, rfl⟩ := Nat.exists_eq_add_of_le' hfits
  have hstretch := (isRam_below hram).2
  have hbelow := below_even heven (ws.length + words.length)
  rw [hpointer] at hregisters hstored
  refine ⟨?_, ?_⟩
  · rw [hregisters, h.registers, setA_setA, List.length_append]
  · rw [List.length_append]
    refine IsRam.append _ _ (by rwa [← Nat.mul_add]) hbelow (.inr ⟨?_,
      hstored (h.stored.layout.isRam (isRam_below hstretch).1) hbelow⟩)
    rw [below_add]
    exact h.stored

theorem push16 (hfits : 1 + words.length ≤ n) (value : UInt16) :
    Pushed cpu (value :: words) (cpu'.push16 value) := by
  refine h.push hram heven [value] hfits ?_ fun hroom hbelow => ?_
  · change (cpu'.write16 _ value).registers.setA 7 _ = _
    rw [registers_write16]
    rfl
  · rw [memory_push16]
    exact hroom.write16 hbelow value

theorem push32 (hfits : 2 + words.length ≤ n) (value : UInt32) :
    Pushed cpu ((value >>> 16).toUInt16 :: value.toUInt16 :: words) (cpu'.push32 value) := by
  refine h.push hram heven [(value >>> 16).toUInt16, value.toUInt16] hfits ?_
    fun hroom hbelow => ?_
  · change (cpu'.write32 _ value).registers.setA 7 _ = _
    rw [registers_write32]
    rfl
  · rw [memory_push32]
    exact hroom.write32 hbelow value

end Pushed

def stacked (cpu : Cpu) (pc : UInt32) : Cpu :=
  (cpu.enterSupervisor.push32 pc).push16 cpu.registers.sr

theorem enterException_eq (cpu : Cpu) (vector : Nat) (pc : UInt32) :
    cpu.enterException vector pc = (cpu.stacked pc).vectorTo vector :=
  rfl

/-- An exception is being handled: its short frame is on top of the supervisor stack, and the other
registers are those from before. -/
structure Handling (before : Cpu) (pc : UInt32) (cpu : Cpu) : Prop where
  supervisor : cpu.registers.supervisor = true
  tracing : cpu.registers.tracing = false
  user : cpu.registers.stack false = before.registers.stack false
  pointer : cpu.registers.stack true = below (before.registers.stack true) 3
  data : ∀ n, cpu.registers.d n = before.registers.d n
  address : ∀ n < 7, cpu.registers.a n = before.registers.a n
  ram : cpu.memory.IsRam (below (before.registers.stack true) 3) 6
  frame : cpu.memory.words (below (before.registers.stack true) 3) 3 =
    [before.registers.sr, (pc >>> 16).toUInt16, pc.toUInt16]

theorem registers_vectorTo (cpu : Cpu) (vector : Nat) :
    (cpu.vectorTo vector).2.registers = cpu.registers := by
  unfold vectorTo
  dsimp only
  split <;> rfl

theorem memory_vectorTo (cpu : Cpu) (vector : Nat) :
    (cpu.vectorTo vector).2.memory = (cpu.memory.read32 (4 * vector).toUInt32).2 := by
  unfold vectorTo
  dsimp only
  split <;> rfl

def handler (cpu : Cpu) (vector : Nat) : UInt32 :=
  (cpu.read32 (4 * vector).toUInt32).1

theorem vectorTo_ok (cpu : Cpu) (h : cpu.handler vector &&& 1 = 0) :
    (cpu.vectorTo vector).1 = .ok (cpu.handler vector) ∧
      (cpu.vectorTo vector).2.pc = cpu.handler vector := by
  rw [handler] at h ⊢
  unfold vectorTo
  dsimp only
  rw [if_pos h]
  exact ⟨rfl, rfl⟩

theorem even_of_vectorTo {target : UInt32} (h : (cpu.vectorTo vector).1 = .ok target) :
    target &&& 1 = 0 := by
  rcases cpu.vectorTo_cases vector with ⟨target', heven, hok⟩ | ⟨e, -, herror⟩
  · rw [h] at hok
    cases hok
    exact heven
  · rw [h] at herror
    cases herror

theorem stack_enterSupervisor (cpu : Cpu) :
    cpu.enterSupervisor.registers.a 7 = cpu.registers.stack true := by
  rw [a_seven, supervisor_enterSupervisor, enterSupervisor, stack_setSr]

theorem tracing_enterSupervisor (cpu : Cpu) : cpu.enterSupervisor.registers.tracing = false := by
  rw [enterSupervisor, tracing_setSr, UInt16.toNat_and, Nat.testBit_and]
  exact Bool.and_false _

theorem registers_acknowledge (cpu : Cpu) (level : UInt8) :
    (cpu.acknowledge level).registers = cpu.registers := by
  unfold acknowledge
  dsimp only
  split <;> rfl

theorem sameBytes_acknowledge (cpu : Cpu) (level : UInt8) :
    SameBytes cpu.memory (cpu.acknowledge level).memory := by
  unfold acknowledge
  dsimp only
  split
  · exact ⟨⟨rfl, rfl⟩, fun _ => rfl⟩
  · exact .refl _

def raised (sr : UInt16) (level : UInt8) : UInt16 :=
  (sr &&& 0xF8FF) ||| ((level &&& 7).toUInt16 <<< (8 : UInt16))

theorem testBit_raised (sr : UInt16) (level : UInt8) {i : Nat} (hi : i < 16) :
    (raised sr level).toNat.testBit i =
      if 8 ≤ i ∧ i < 11 then level.toNat.testBit (i - 8) else sr.toNat.testBit i := by
  have hlevel : ((level &&& 7).toUInt16 <<< 8).toNat = (level.toNat &&& 7) <<< 8 := by
    have hle : level.toNat &&& 7 ≤ 7 := Nat.and_le_right
    change ((level.toNat &&& 7) <<< 8) % 2 ^ 16 = _
    rw [Nat.shiftLeft_eq]
    omega
  have hcases : ∀ j < 16, (0xF8FF : UInt16).toNat.testBit j = !(decide (8 ≤ j ∧ j < 11)) ∧
      (decide (j ≥ 8) && (7 : Nat).testBit (j - 8)) = decide (8 ≤ j ∧ j < 11) := by
    decide
  obtain ⟨hmask, hseven⟩ := hcases i hi
  rw [raised, UInt16.toNat_or, UInt16.toNat_and, hlevel, Nat.testBit_or, Nat.testBit_and,
    Nat.testBit_shiftLeft, Nat.testBit_and, hmask, Bool.and_comm (level.toNat.testBit _),
    ← Bool.and_assoc, hseven]
  by_cases h : 8 ≤ i ∧ i < 11 <;> simp [h]

theorem interruptMask_raised (cpu : Cpu) (sr : UInt16) (level : UInt8) :
    (cpu.setSr (raised sr level)).registers.interruptMask = level &&& 7 := by
  rw [interruptMask, ← UInt8.toNat_inj, UInt8.toNat_and, UInt8.toNat_and]
  refine Nat.eq_of_testBit_eq fun i => ?_
  rw [Nat.testBit_and, Nat.testBit_and]
  by_cases hi : i < 3
  · have hmask : ∀ j < 3, statusMask.toNat.testBit (8 + j) = true := by decide
    rw [← testBit_sr _ (by omega), sr_setSr, UInt16.toNat_and, Nat.testBit_and,
      hmask i hi, testBit_raised sr level (by omega), if_pos (by omega), Bool.and_true,
      Nat.add_sub_cancel_left]
  · have hseven : (7 : UInt8).toNat.testBit i = false :=
      Nat.testBit_lt_two_pow (Nat.lt_of_lt_of_le (by decide) (Nat.pow_le_pow_right (by decide)
        (Nat.le_of_not_lt hi)))
    rw [hseven, Bool.and_false, Bool.and_false]

theorem takeInterrupt_eq (cpu : Cpu) (level : UInt8) (pc : UInt32) :
    cpu.takeInterrupt level pc =
      match (cpu.acknowledge level).enterException (autovector + level.toNat) pc with
      | (.error error, cpu) => (.error error, cpu)
      | (.ok handler, cpu) => (cpu.setSr (raised cpu.registers.sr level)).resolve handler none :=
  rfl

namespace Handling

variable {pc : UInt32}

section

variable (heven : before.registers.stack true &&& 1 = 0)
include heven

theorem congr (h : Handling before pc cpu) (hregisters : cpu'.registers = cpu.registers)
    (hmemory : SameBytes cpu.memory cpu'.memory) : Handling before pc cpu' := by
  obtain ⟨hsupervisor, htracing, huser, hpointer, hdata, haddress, hram, hframe⟩ := h
  rw [← hregisters] at hsupervisor htracing huser hpointer hdata haddress
  refine ⟨hsupervisor, htracing, huser, hpointer, hdata, haddress, hmemory.layout.isRam hram, ?_⟩
  rw [← hframe]
  exact words_congr hmemory.layout (below_even heven 3) hram.plain
    fun cell _ => hmemory.bytes cell

theorem stacked (hram : before.memory.IsRam (below (before.registers.stack true) 3) 6) :
    Handling before pc (before.stacked pc) := by
  have hpointer := stack_enterSupervisor before
  rw [← hpointer] at heven hram
  change before.enterSupervisor.memory.IsRam (below _ 3) (2 * 3) at hram
  have hpc := (Pushed.start before.enterSupervisor).push32 hram heven (by decide) pc
  have hpushed := hpc.push16 hram heven (Nat.le_refl 3) before.registers.sr
  have hregisters : (before.stacked pc).registers = _ := hpushed.registers
  rw [hpointer] at hregisters
  refine ⟨?_, ?_, ?_, ?_, fun n => ?_, fun n hn => ?_, ?_, ?_⟩
  · rw [hregisters, supervisor_setA]
    exact before.supervisor_enterSupervisor
  · rw [hregisters, RegisterFile.tracing, RegisterFile.status_setA]
    exact before.tracing_enterSupervisor
  · rw [hregisters, stack_setA, supervisor_enterSupervisor, if_neg (by decide),
      enterSupervisor, stack_setSr]
  · rw [hregisters, stack_setA, supervisor_enterSupervisor, if_pos rfl]
    rfl
  · rw [hregisters, d_setA, enterSupervisor, d_setSr]
  · rw [hregisters, a_setA, if_neg (by omega), enterSupervisor, a_setSr _ _ hn]
  · rw [← hpointer]
    exact hpushed.stored.layout.isRam hram
  · rw [← hpointer]
    exact hpushed.stored.found

theorem enterException (hram : before.memory.IsRam (below (before.registers.stack true) 3) 6)
    (vector : Nat) : Handling before pc (before.enterException vector pc).2 := by
  refine (stacked heven hram).congr heven (registers_vectorTo _ vector) ?_
  rw [enterException_eq, memory_vectorTo]
  exact sameBytes_read32 _ _

end

theorem setSr (h : Handling before pc cpu) {value : UInt16}
    (hsupervisor : value.toNat.testBit 13 = true) (htracing : value.toNat.testBit 15 = false) :
    Handling before pc (cpu.setSr value) where
  supervisor := (supervisor_setSr cpu value).trans hsupervisor
  tracing := (tracing_setSr cpu value).trans htracing
  user := (stack_setSr cpu value false).trans h.user
  pointer := (stack_setSr cpu value true).trans h.pointer
  data n := (d_setSr cpu value n).trans (h.data n)
  address n hn := (a_setSr cpu value hn).trans (h.address n hn)
  ram := h.ram
  frame := h.frame

theorem of_acknowledge {level : UInt8} (h : Handling (before.acknowledge level) pc cpu) :
    Handling before pc cpu := by
  have hregisters := before.registers_acknowledge level
  obtain ⟨hsupervisor, htracing, huser, hpointer, hdata, haddress, hram, hframe⟩ := h
  rw [hregisters] at huser hpointer hdata haddress hram hframe
  exact ⟨hsupervisor, htracing, huser, hpointer, hdata, haddress, hram, hframe⟩

theorem takeInterrupt (heven : before.registers.stack true &&& 1 = 0)
    (hram : before.memory.IsRam (below (before.registers.stack true) 3) 6) (level : UInt8) :
    Handling before pc (before.takeInterrupt level pc).2 := by
  have hentered : Handling before pc ((before.acknowledge level).enterException
      (autovector + level.toNat) pc).2 := by
    refine of_acknowledge (enterException ?_ ?_ _)
    · rwa [registers_acknowledge]
    · rw [registers_acknowledge]
      exact (before.sameBytes_acknowledge level).layout.isRam hram
  rw [takeInterrupt_eq]
  split
  · rename_i hresult
    rwa [hresult] at hentered
  · rename_i handler cpu hresult
    have hok := congrArg Prod.fst hresult
    rw [hresult] at hentered
    have hraised : Handling before pc (cpu.setSr (raised cpu.registers.sr level)) := by
      refine hentered.setSr ?_ ?_
      · rw [testBit_raised _ _ (by decide), if_neg (by decide), show 13 = 8 + 5 from rfl,
          testBit_sr _ (by decide), ← supervisor_eq_testBit]
        exact hentered.supervisor
      · rw [testBit_raised _ _ (by decide), if_neg (by decide), show 15 = 8 + 7 from rfl,
          testBit_sr _ (by decide), ← tracing_eq_testBit]
        exact hentered.tracing
    rw [resolve, if_pos (even_of_vectorTo hok)]
    exact hraised.congr heven rfl (.refl _)

theorem returnFromException (h : Handling before pc cpu)
    (heven : before.registers.stack true &&& 1 = 0)
    (hsr : before.registers.sr &&& statusMask = before.registers.sr) (hpc : pc &&& 1 = 0)
    (origin : Option UInt32) :
    ∃ resumed : Cpu, cpu.returnFromException origin =
        (.ok (resumed.locate pc).1, (resumed.locate pc).2) ∧
      resumed.pc = pc ∧ resumed.registers.sr = before.registers.sr ∧
      (∀ n, resumed.registers.d n = before.registers.d n) ∧
      ∀ n, resumed.registers.a n = before.registers.a n := by
  have hsp : cpu.registers.a 7 = below (before.registers.stack true) 3 := by
    rw [a_seven, h.supervisor, h.pointer]
  have hbelow := below_even heven 3
  obtain ⟨hhead, htail⟩ := List.cons.inj h.frame
  have hstatus : cpu.read16 (cpu.registers.a 7) = (before.registers.sr, cpu) := by
    rw [hsp]
    exact read16_eq (Prod.ext hhead ((h.ram.split (j := 2) (n := 4)).1.read16 hbelow))
  have hreturn : cpu.read32 (cpu.registers.a 7 + 2) = (pc, cpu) := by
    rw [hsp]
    refine read32_eq (((h.ram.split (j := 2) (n := 4)).2.1.read32
      (even_add_two hbelow) htail).trans ?_)
    rw [join_words]
  have hpopped : cpu.registers.a 7 + 6 = before.registers.stack true := by
    rw [hsp, below]
    exact UInt32.sub_add_cancel _ _
  obtain ⟨popped, hpop⟩ : ∃ popped, popped = cpu.setA 7 (cpu.registers.a 7 + 6) := ⟨_, rfl⟩
  have hregisters : popped.registers = cpu.registers.setA 7 (before.registers.stack true) := by
    rw [hpop, ← hpopped]
    rfl
  have hsame : (popped.setSr before.registers.sr).registers.sr = before.registers.sr := by
    rw [sr_setSr, hsr]
  refine ⟨{ popped.setSr before.registers.sr with pc := pc }, ?_, rfl, hsame, fun n => ?_,
    a_congr (fun n hn => ?_) (supervisor_of_sr hsame) fun mode => ?_⟩
  · rw [Cpu.returnFromException]
    simp only [hstatus, hreturn]
    rw [resolve, if_pos hpc, hpop]
  · change (popped.setSr before.registers.sr).registers.d n = _
    rw [d_setSr, hregisters, d_setA, h.data]
  · change (popped.setSr before.registers.sr).registers.a n = _
    rw [a_setSr _ _ hn, hregisters, a_setA, if_neg (by omega), h.address n hn]
  · change (popped.setSr before.registers.sr).registers.stack mode = _
    rw [stack_setSr, hregisters, stack_setA, h.supervisor]
    cases mode with
    | true => rfl
    | false => exact h.user

end Handling

/-- An exception was taken that returning undoes: it is handled in supervisor mode and without
trace, with the stack pointer of user mode as it was, and the return from it goes on at `pc` with all
registers as they were. -/
structure Undone (before : Cpu) (pc : UInt32) (cpu : Cpu) : Prop where
  supervisor : cpu.registers.supervisor = true
  tracing : cpu.registers.tracing = false
  user : cpu.registers.stack false = before.registers.stack false
  returns : ∀ origin, ∃ resumed : Cpu,
    cpu.returnFromException origin = (.ok (resumed.locate pc).1, (resumed.locate pc).2) ∧
      resumed.pc = pc ∧ resumed.registers.sr = before.registers.sr ∧
      (∀ n, resumed.registers.d n = before.registers.d n) ∧
      ∀ n, resumed.registers.a n = before.registers.a n

theorem Handling.undone {pc : UInt32} (h : Handling before pc cpu)
    (heven : before.registers.stack true &&& 1 = 0)
    (hsr : before.registers.sr &&& statusMask = before.registers.sr) (hpc : pc &&& 1 = 0) :
    Undone before pc cpu where
  supervisor := h.supervisor
  tracing := h.tracing
  user := h.user
  returns := h.returnFromException heven hsr hpc

theorem takeInterrupt_ok (cpu : Cpu) (level : UInt8) (pc : UInt32)
    (h : ((cpu.acknowledge level).stacked pc).handler (autovector + level.toNat)
      &&& 1 = 0) :
    (∃ native, (cpu.takeInterrupt level pc).1 = .ok native) ∧
      (cpu.takeInterrupt level pc).2.pc =
        ((cpu.acknowledge level).stacked pc).handler (autovector + level.toNat) ∧
      (cpu.takeInterrupt level pc).2.registers.interruptMask = level &&& 7 := by
  obtain ⟨hok, hpc⟩ := vectorTo_ok _ h
  rw [← enterException_eq] at hok hpc
  rw [takeInterrupt_eq]
  split
  · rename_i hresult
    rw [hresult] at hok
    cases hok
  · rename_i handler raising hresult
    rw [hresult] at hok hpc
    cases hok
    rw [resolve, if_pos h]
    exact ⟨⟨_, rfl⟩, hpc, interruptMask_raised raising _ level⟩

end Cpu

/-- Returning from an exception or an interrupt undoes it, if the supervisor stack has room for the
short frame in plain memory. The status register may be whatever can be loaded into it. -/
theorem return_undoes_exception (cpu : Cpu) (pc : UInt32)
    (hsr : cpu.registers.sr &&& Cpu.statusMask = cpu.registers.sr)
    (heven : cpu.registers.stack true &&& 1 = 0)
    (hram : cpu.memory.IsRam (cpu.registers.stack true - 6) 6) (hpc : pc &&& 1 = 0) :
    (∀ vector, cpu.Undone pc (cpu.enterException vector pc).2 ∧
      ((cpu.stacked pc).handler vector &&& 1 = 0 →
        (cpu.enterException vector pc).1 = .ok ((cpu.stacked pc).handler vector) ∧
          (cpu.enterException vector pc).2.pc = (cpu.stacked pc).handler vector)) ∧
    ∀ level, cpu.Undone pc (cpu.takeInterrupt level pc).2 ∧
      (((cpu.acknowledge level).stacked pc).handler (autovector + level.toNat)
          &&& 1 = 0 →
        (∃ native, (cpu.takeInterrupt level pc).1 = .ok native) ∧
          (cpu.takeInterrupt level pc).2.pc = ((cpu.acknowledge level).stacked pc).handler
            (autovector + level.toNat) ∧
          (cpu.takeInterrupt level pc).2.registers.interruptMask = level &&& 7) := by
  refine ⟨fun vector => ⟨?_, fun h => Cpu.vectorTo_ok _ h⟩,
    fun level => ⟨?_, cpu.takeInterrupt_ok level pc⟩⟩
  · exact (Cpu.Handling.enterException heven hram vector).undone heven hsr hpc
  · exact (Cpu.Handling.takeInterrupt heven hram level).undone heven hsr hpc

/-- A processor in user mode that traces, with little memory for its supervisor stack. -/
def Cpu.tracingUser : Cpu :=
  ((fresh .default (.filled 0xFFFFFF 0xFFFFFFFF)).setA 7 48).setSr 0x8015

/-- The frame is stacked over vector 11, which then leads back to the program counter in it. -/
theorem return_undoes_exception_tracing :
    Cpu.tracingUser.registers.sr = 0x8015 ∧
      Cpu.tracingUser.Undone 0x20 (Cpu.tracingUser.enterException 11 0x20).2 ∧
      (Cpu.tracingUser.enterException 11 0x20).1 = .ok 0x20 := by
  have hsr : Cpu.tracingUser.registers.sr = 0x8015 := Cpu.sr_setSr _ _
  have hstack : Cpu.tracingUser.registers.stack true = 48 := by
    rw [Cpu.tracingUser, Cpu.stack_setSr]
    exact (stack_setA _ _ _).trans (if_pos (by decide))
  have hcells : Cpu.tracingUser.memory.cellsAt (48 - 6) 6 =
      [42, 43, 44, 45, 46, 47].map fun index => some ⟨0, 0, index⟩ := by
    change (filled 0xFFFFFF 0xFFFFFFFF).cellsAt (48 - 6) 6 = _
    simp only [cellsAt, cellAt?_eq]
    rfl
  have hhandler : (Cpu.tracingUser.stacked 0x20).handler 11 = 0x20 := by
    decide +kernel
  obtain ⟨hundone, hok⟩ := (return_undoes_exception Cpu.tracingUser 0x20 (by rw [hsr]; rfl)
    (by rw [hstack]; rfl) (by rw [hstack]; exact ⟨by rw [hcells]; decide, by rw [hcells]; decide⟩)
    rfl).1 11
  rw [hhandler] at hok
  exact ⟨hsr, hundone, (hok rfl).1⟩

end Dynarec68k
