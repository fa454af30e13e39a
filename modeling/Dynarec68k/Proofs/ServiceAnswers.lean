import Dynarec68k.Proofs.AddressErrors
import Dynarec68k.Proofs.ServiceTimes

namespace Dynarec68k

open Host

theorem RegisterFile.d_setFlag (file : RegisterFile) (flag : Flag) (value : Bool) (n : Nat) :
    (file.setFlag flag value).d n = file.d n := by
  refine (registers_congr (fun k hk => ?_) n).1
  have hflag : flagOffset .x ≤ flagOffset flag ∧ flagOffset flag < registerFileSize := by
    cases flag <;> decide
  rw [setFlag, byteAt_setByte _ _ _ _ hflag.2, if_neg (by omega)]

namespace Host.Service

/-- Accesses to words and longs. -/
def isWide : Service → Bool
  | .read16 => true
  | .read32 => true
  | .write16 => true
  | .write32 => true
  | .write32LowFirst => true
  | _ => false

def isStore : Service → Bool
  | .write8 => true
  | .write16 => true
  | .write32 => true
  | .write32LowFirst => true
  | _ => false

/-- The address that an access is to. -/
def address (service : Service) (m : Machine) : UInt32 :=
  if service.isStore then m.state.reg Role.scratch2 else m.state.reg Role.scratch1

/-- What an access to an odd address was to do. -/
def faultKind (service : Service) : FaultKind :=
  if service.isStore then .write else .read

end Host.Service

namespace Cpu

theorem quiet_data : Quiet fun x y => ∀ n, y.registers.d n = x.registers.d n where
  trans h h' n := (h' n).trans (h n)
  pass _ _ _ _ := rfl
  setFlag _ flag value n := RegisterFile.d_setFlag _ flag value n
  afterWrite _ _ _ action _ := by cases action <;> rfl

variable (cpu : Cpu)

theorem serve_odd (m : Machine) {host : State} (hhost : ∀ r, host.reg r = m.state.reg r)
    {service : Service} (hwide : service.isWide = true) (hodd : service.address m &&& 1 ≠ 0) :
    cpu.serve host service = cpu.oddAccess host (service.address m) service.faultKind := by
  have hread {size : Size} (hsize : size ≠ .byte) (hodd : m.state.reg Role.scratch1 &&& 1 ≠ 0) :
      cpu.serveRead host size (host.reg Role.scratch1) =
        cpu.oddAccess host (m.state.reg Role.scratch1) .read := by
    rw [hhost]
    exact if_pos ⟨hsize, hodd⟩
  have hwrite {size : Size} (hsize : size ≠ .byte) (lowFirst : Bool)
      (hodd : m.state.reg Role.scratch2 &&& 1 ≠ 0) (value : UInt32) :
      cpu.serveWrite host size lowFirst (host.reg Role.scratch2) value =
        cpu.oddAccess host (m.state.reg Role.scratch2) .write := by
    rw [hhost]
    exact if_pos ⟨hsize, hodd⟩
  cases service with
  | read16 | read32 => exact hread (by decide) hodd
  | write16 | write32 => exact hwrite (by decide) false hodd _
  | write32LowFirst => exact hwrite (by decide) true hodd _
  | _ => cases hwide

theorem sameBytes_serveRead (host : State) (size : Size) (address : UInt32)
    (h : (cpu.serveRead host size address).outcome = .proceed) :
    MemoryMap.SameBytes cpu.memory (cpu.serveRead host size address).cpu.memory := by
  unfold serveRead at h ⊢
  split
  · rename_i hodd
    rw [if_pos hodd] at h
    exact absurd h (Outcome.ofEntry_ne_proceed _)
  · cases size with
    | byte => exact cpu.memory.sameBytes_read8 address
    | word => exact cpu.memory.sameBytes_read16 address
    | long => exact cpu.memory.sameBytes_read32 address

theorem memory_serveDivide (signed : Bool) (divisor : UInt16) (dividend next : UInt32)
    (h : (cpu.serveDivide signed divisor dividend next).outcome = .proceed) :
    (cpu.serveDivide signed divisor dividend next).cpu.memory = cpu.memory := by
  unfold serveDivide at h ⊢
  split
  · rename_i hzero
    rw [if_pos hzero] at h
    exact absurd h (Outcome.ofEntry_ne_proceed _)
  · dsimp only
    split <;> exact quotientFlags_keeps (f := memory) _ (fun _ _ _ => rfl) _

theorem sameBytes_serve {service : Service} (hservice : service.GivesBack)
    (hstore : service.isStore = false) (host : State)
    (h : (cpu.serve host service).outcome = .proceed) :
    MemoryMap.SameBytes cpu.memory (cpu.serve host service).cpu.memory := by
  have hsame {memory : MemoryMap} (heq : memory = cpu.memory) :
      MemoryMap.SameBytes cpu.memory memory := heq ▸ .refl _
  cases service with
  | read8 | read16 | read32 => exact cpu.sameBytes_serveRead host _ _ h
  | setSr => exact hsame rfl
  | reset =>
    change MemoryMap.SameBytes cpu.memory (if cpu.logsReset then cpu.log .reset else cpu).memory
    split
    · exact ⟨⟨rfl, rfl⟩, fun _ => rfl⟩
    · exact .refl _
  | mulu | muls => exact hsame (setLogicFlags_keeps (f := memory) _ (fun _ _ _ => rfl) _)
  | divu | divs => exact hsame (cpu.memory_serveDivide _ _ _ _ h)
  | abcd | sbcd => exact hsame (cpu.serveDecimal_keeps (f := memory) (fun _ _ _ => rfl) ..)
  | write8 | write16 | write32 | write32LowFirst => cases hstore
  | _ => rcases hservice with hservice | hservice <;> cases hservice

end Cpu

/-- A processor has the registers that a host holds, and a memory. -/
structure Cpu.Shows (cpu : Cpu) (config : Config) (m : Machine) (memory : MemoryMap) : Prop where
  config_eq : cpu.config = config
  registers : cpu.registers = config.registerAssignment.spill m
  memory : cpu.memory = memory
  cycle : cpu.cycle = m.state.reg Role.cycles

/-- What a service that gives back control leaves alone in the host. -/
def Host.Machine.Rests (m m' : Machine) : Prop :=
  ∀ s : Scratch, s ≠ .first → s ≠ .cycles → m'.state.reg s.reg = m.state.reg s.reg

/-- A service gave back control after so many clocks. -/
structure Answers (config : Config) (service : Service) (clocks : Nat) (m : Machine)
    (memory : MemoryMap) (m' : Machine) (memory' : MemoryMap) : Prop where
  asked : service.isAccess = true ∨ service.comesBack = true
  least : service.leastClocks ≤ clocks
  most : clocks ≤ service.mostClocks
  rests : m.Rests m'
  ready : m'.Ready
  level : config.registerAssignment.spill m' = m'.file
  served : ∃ (cpu : Cpu) (host : State), cpu.Shows config m memory ∧
    (∀ r, host.reg r = m.state.reg r) ∧ (cpu.serve host service).outcome = .proceed ∧
    (cpu.serve host service).cpu.Shows config m' memory' ∧
    ∀ value, (cpu.serve host service).result = some value → m'.state.reg Role.scratch1 = value

namespace Answers

variable {config : Config} {service : Service} {clocks : Nat} {m m' : Machine}
  {memory memory' : MemoryMap}

theorem data (h : Answers config service clocks m memory m' memory') (n : Nat) :
    (config.registerAssignment.spill m').d n = (config.registerAssignment.spill m).d n := by
  obtain ⟨cpu, host, hbefore, -, houtcome, hafter, -⟩ := h.served
  rw [← hbefore.registers, ← hafter.registers]
  exact Cpu.quiet_data.serve host h.asked (fun _ sr => cpu.d_setSr sr) (.inl houtcome) n

theorem bytes (h : Answers config service clocks m memory m' memory')
    (hstore : service.isStore = false) : MemoryMap.SameBytes memory memory' := by
  obtain ⟨cpu, host, hbefore, -, houtcome, hafter, -⟩ := h.served
  rw [← hbefore.memory, ← hafter.memory]
  exact cpu.sameBytes_serve h.asked hstore host houtcome

end Answers

namespace Session

theorem answers {u : Session} {service : Service} (hservice : service.GivesBack)
    (h : (u.served service).outcome = .proceed) (site : CodePtr) :
    ∃ clocks, Answers u.cpu.config service clocks u.machine.unstacked u.cpu.memory
        (u.back service site).machine (u.served service).cpu.memory ∧
      (u.served service).cpu.schedule = u.asked.schedule.later clocks := by
  have hconfig : (u.served service).cpu.config = u.cpu.config := by
    have houter := congrArg Cpu.config (u.asked.outer_serve _ hservice h)
    exact houter
  have hspill : u.cpu.config.registerAssignment.spill (u.back service site).machine =
      (u.served service).cpu.registers := by
    rw [back_machine, ← hconfig]
    exact Cpu.spill_loadHost _ _
  rcases u.asked.serve_times hservice u.machine.state with
    ⟨-, clocks, hleast, hmost, hlater⟩ | ⟨⟨entry, hentry⟩, -⟩
  · refine ⟨clocks, ⟨hservice, hleast, hmost, fun s hfirst hcycles => ?_, back_ready u service site,
      hspill.trans ?_, u.asked, u.machine.state,
      ⟨rfl, rfl, rfl, (u.machine.unstacked_reg Role.cycles).symm⟩,
      fun r => (u.machine.unstacked_reg r).symm, h, ⟨hconfig, hspill.symm, rfl, ?_⟩,
      fun value hvalue => ?_⟩, hlater⟩
    · rw [Machine.unstacked_reg, back_machine, Machine.unstacked_reg,
        Cpu.loadHost_scratch _ _ hcycles, answer_scratch _ hfirst]
    · rw [back_machine]
      rfl
    · rw [back_machine, Machine.unstacked_reg]
      exact (Cpu.loadHost_cycles _ _).symm
    · rw [back_machine, Machine.unstacked_reg]
      exact (Cpu.loadHost_scratch (s := .first) _ _ (by decide)).trans (answer_first_some hvalue)
  · exact absurd (hentry.symm.trans h) (Outcome.ofEntry_ne_proceed entry)

end Session

end Dynarec68k
