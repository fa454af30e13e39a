import Dynarec68k.Proofs.Execution
import Dynarec68k.Proofs.Layout

namespace Dynarec68k

open Host Relation

variable {machine : Machine}

namespace Host

theorem add_ofNat (n k : Nat) : n.toUInt32 + 1 + (Int32.ofNat k).toUInt32 = (n + 1 + k).toUInt32 := by
  rw [toUInt32_add, toUInt32_succ]
  rfl

theorem add_neg_ofNat {n m k : Nat} (h : m + k = n + 1) :
    n.toUInt32 + 1 + (-Int32.ofNat k).toUInt32 = m.toUInt32 := by
  have hneg : (-Int32.ofNat k).toUInt32 = -k.toUInt32 := rfl
  rw [toUInt32_succ, ← h, toUInt32_add, hneg, ← UInt32.sub_eq_add_neg, UInt32.add_sub_cancel]

end Host

namespace Session

variable {s : Session} {n : Nat}

/-- A session with another host at another site. -/
def moved (s : Session) (machine : Machine) (site : CodePtr) : Session :=
  { s with machine := machine, site := site }

theorem step_cases (s : Session) :
    (∃ service, s.step = s.serve service) ∨
      (∃ machine site, s.step = .next (s.moved machine site)) ∨ ∃ reason, s.step = s.fault reason := by
  cases hop : s.cpu.store.code.op? s.site with
  | none => exact .inr (.inr ⟨.offTheEnd, by rw [step, hop]⟩)
  | some op =>
    cases op with
    | service service => exact .inl ⟨service, by rw [step, hop]⟩
    | jumpIf test rel =>
      simp only [step, hop]
      split
      · exact .inr (.inl ⟨_, _, rfl⟩)
      · exact .inr (.inl ⟨_, _, rfl⟩)
    | jump | jumpReg | call | push =>
      simp only [step, hop]
      exact .inr (.inl ⟨_, _, rfl⟩)
    | ret | pop | mov | movsx | movzx | alu | unary | shift | bit | setTest | lea =>
      simp only [step, hop]
      split
      · exact .inr (.inl ⟨_, _, rfl⟩)
      · exact .inr (.inr ⟨_, rfl⟩)

theorem op?_of_room {code : CodeBuffer} (hroom : code.ops.size < 2 ^ 31) {op : Host.Op}
    (h : code.ops[n]? = some op) : code.op? n.toUInt32 = some op := by
  obtain ⟨hn, -⟩ := Array.getElem?_eq_some_iff.mp h
  rw [CodeBuffer.op?_toUInt32 _ (by omega), h]

section

variable (hroom : s.cpu.store.code.ops.size < 2 ^ 31) (hsite : s.site = n.toUInt32) {rel : Int32}
  {test : Test}
include hroom hsite

theorem step_data {op : Host.Op} (h : s.cpu.store.code.ops[n]? = some op) (hdata : op.isData = true)
    (hperform : s.machine.perform op = .ok machine) :
    s.step = .next (s.moved machine (n + 1).toUInt32) := by
  have hop := op?_of_room hroom h
  rw [← toUInt32_succ]
  cases op <;> first | exact absurd hdata Bool.false_ne_true | skip
  all_goals
    simp only [step, hsite, hop, hperform]
    rfl

theorem step_jump (h : s.cpu.store.code.ops[n]? = some (.jump rel)) :
    s.step = .next (s.goto (n.toUInt32 + 1 + rel.toUInt32)) := by
  simp only [step, hsite, op?_of_room hroom h]

theorem step_jumpsTo {m : Nat} (h : s.cpu.store.code.JumpsTo n m) :
    s.step = .next (s.goto m.toUInt32) := by
  rw [step_jump hroom hsite h, branch_relativeTo]

theorem step_taken (h : s.cpu.store.code.ops[n]? = some (.jumpIf test rel))
    (htest : s.machine.state.flags.holds test = true) :
    s.step = .next (s.goto (n.toUInt32 + 1 + rel.toUInt32)) := by
  simp only [step, hsite, op?_of_room hroom h, htest, if_true]

theorem step_passed (h : s.cpu.store.code.ops[n]? = some (.jumpIf test rel))
    (htest : s.machine.state.flags.holds test = false) :
    s.step = .next (s.goto (n + 1).toUInt32) := by
  simp only [step, hsite, op?_of_room hroom h, htest, Bool.false_eq_true, if_false, toUInt32_succ]

theorem step_call {target : CodePtr}
    (h : s.cpu.store.code.ops[n]? = some (.call (relativeTo n.toUInt32 target))) :
    s.step =
      .next ((s.setStack ((n + 1).toUInt32 :: s.machine.state.stack)).goto target) := by
  simp only [step, hsite, op?_of_room hroom h, branch_relativeTo]
  rw [toUInt32_succ]

theorem step_ret {back : CodePtr} {rest : List UInt32} (h : s.cpu.store.code.ops[n]? = some .ret)
    (hstack : s.machine.state.stack = back :: rest) :
    s.step = .next ((s.setStack rest).goto back) := by
  simp only [step, hsite, op?_of_room hroom h, hstack]

theorem step_jumpReg {reg : Reg} (h : s.cpu.store.code.ops[n]? = some (.jumpReg reg)) :
    s.step = .next (s.goto (s.machine.state.reg reg)) := by
  simp only [step, hsite, op?_of_room hroom h]

theorem step_service {service : Service}
    (h : s.cpu.store.code.ops[n]? = some (.service service)) : s.step = s.serve service := by
  simp only [step, hsite, op?_of_room hroom h]

end

/-- A fragment stands in the code from a position on. -/
def Placed (s : Session) (fragment : Fragment) (position : Nat) : Prop :=
  ∀ (i : Nat) item, fragment[i]? = some item → s.cpu.store.code.Holds (position + i) item

variable {f : Fragment} {base : Nat}

theorem step_moves (hroom : s.cpu.store.code.ops.size < 2 ^ 31) (hplaced : s.Placed f base)
    {i i' : Nat} (hsite : s.site = (base + i).toUInt32) (h : f.Moves (i, s.machine) (i', machine)) :
    s.step = .next (s.moved machine (base + i').toUInt32) := by
  cases h with
  | data hitem hdata hperform =>
    exact step_data hroom hsite (hplaced i _ hitem) hdata hperform
  | @skip _ k _ hitem =>
    rw [step_jump hroom hsite (hplaced i _ hitem), add_ofNat, Nat.add_assoc, Nat.add_assoc,
      ← Nat.add_assoc i]
    rfl
  | @taken _ k _ _ hitem htest =>
    rw [step_taken hroom hsite (hplaced i _ hitem) htest, add_ofNat, Nat.add_assoc,
      Nat.add_assoc, ← Nat.add_assoc i]
    rfl
  | passed hitem htest =>
    rw [step_passed hroom hsite (hplaced i _ hitem) htest]
    rfl
  | @back _ j k _ _ hitem htest htarget =>
    have hback : base + i' + k = base + i + 1 := by omega
    rw [step_taken hroom hsite (hplaced i _ hitem) htest, add_neg_ofNat hback]
    rfl

theorem advances_path (hroom : s.cpu.store.code.ops.size < 2 ^ 31) (hplaced : s.Placed f base)
    {i i' : Nat} (hsite : s.site = (base + i).toUInt32)
    (h : ReflTransGen f.Moves (i, s.machine) (i', machine)) :
    ReflTransGen Advances s (s.moved machine (base + i').toUInt32) := by
  have hstart : s = s.moved s.machine (base + i).toUInt32 := by
    rw [← hsite]
    rfl
  rw [hstart]
  refine h.lift (fun x : Nat × Machine => s.moved x.2 (base + x.1).toUInt32) ?_
  rintro ⟨j, m⟩ ⟨j', m'⟩ hmove
  exact step_moves (s := s.moved m (base + j).toUInt32) hroom hplaced rfl hmove

/-- The processor that a service is asked of. -/
def asked (s : Session) : Cpu :=
  s.cpu.storeHost s.machine

def served (s : Session) (service : Service) : Cpu.Served :=
  s.asked.serve s.machine.state service

/-- The host with what a service leaves in the first scratch register. -/
def answer (s : Session) (service : Service) : State :=
  match (s.served service).result with
  | some value => s.machine.state.setReg Role.scratch1 value
  | none => s.machine.state

/-- After a service, at the same site. -/
def after (s : Session) (service : Service) : Session :=
  { s with
    cpu := (s.served service).cpu
    machine := (s.served service).cpu.loadHost (s.answer service) }

theorem serve_eq (s : Session) (service : Service) :
    s.serve service = (s.after service).follow (s.served service).outcome :=
  rfl

end Session

namespace Cpu

variable (cpu : Cpu) (state : State)

theorem loadHost_stack : (cpu.loadHost state).state.stack = state.stack :=
  (cpu.config.registerAssignment.load_flags cpu.registers state).2

theorem loadHost_flags : (cpu.loadHost state).state.flags = state.flags :=
  (cpu.config.registerAssignment.load_flags cpu.registers state).1

theorem loadHost_reg {r : Reg} (hr : r ≠ Role.context) :
    (cpu.loadHost state).state.reg r =
      if r = Role.limit then cpu.limit
      else if r = Role.cycles then cpu.cycle
      else (cpu.config.registerAssignment.load cpu.registers state).reg r := by
  change (State.setReg _ Role.context 0).reg r = _
  rw [State.reg_setReg _ (by decide), if_neg hr, State.reg_setReg _ (by decide),
    State.reg_setReg _ (by decide)]
  rfl

theorem loadHost_context : (cpu.loadHost state).state.reg Role.context = 0 := by
  change (State.setReg _ Role.context 0).reg Role.context = _
  rw [State.reg_setReg _ (by decide), if_pos rfl]

theorem loadHost_scratch {s : Scratch} (hcycles : s ≠ .cycles) :
    (cpu.loadHost state).state.reg s.reg = state.reg s.reg := by
  obtain ⟨-, hcontext, hnumber, hlimit⟩ := s.reg_number
  have hnotCycles : s.reg ≠ Role.cycles :=
    fun heq => hcycles (Scratch.reg_injective (t := .cycles) heq)
  rw [cpu.loadHost_reg state hcontext, if_neg hlimit, if_neg hnotCycles,
    RegisterAssignment.load_reg _ _ _ hnumber]

theorem loadHost_cycles : (cpu.loadHost state).state.reg Role.cycles = cpu.cycle := by
  rw [cpu.loadHost_reg state (by decide), if_neg (by decide), if_pos rfl]

theorem loadHost_limit : (cpu.loadHost state).state.reg Role.limit = cpu.limit := by
  rw [cpu.loadHost_reg state (by decide), if_pos rfl]

theorem spill_loadHost :
    cpu.config.registerAssignment.spill (cpu.loadHost state) = cpu.registers := by
  have hregs (r : Reg) (hlow : 7 ≤ r.number.toNat) (_ : r.number.toNat < 15) :
      (cpu.loadHost state).state.reg r =
        (cpu.config.registerAssignment.load cpu.registers state).reg r := by
    have hother (role : Reg) (hrole : role.number.toNat < 7) : r ≠ role := by
      rintro rfl
      omega
    rw [cpu.loadHost_reg state (hother _ (by decide)), if_neg (hother _ (by decide)),
      if_neg (hother _ (by decide))]
  exact cpu.config.registerAssignment.spill_load cpu.registers rfl hregs

theorem storeHost_loadHost : cpu.storeHost (cpu.loadHost state) = cpu := by
  change { cpu with
    registers := cpu.config.registerAssignment.spill (cpu.loadHost state)
    cycle := (cpu.loadHost state).state.reg Role.cycles
    limit := (cpu.loadHost state).state.reg Role.limit } = cpu
  rw [spill_loadHost, loadHost_cycles, loadHost_limit]

end Cpu

/-- Code becomes too long by a service, and after that the guest's registers are up to date. -/
theorem Session.step_overfull {s : Session} (hroom : s.cpu.overfull = false)
    (hfull : s.step.cpu.overfull = true) :
    (∃ result c, s.step = .done result c) ∨
      ∃ s', s.step = .next s' ∧ s'.asked = s'.cpu ∧ s'.machine.file = s'.cpu.registers := by
  rcases s.step_cases with ⟨service, hstep⟩ | ⟨machine, site, hstep⟩ | ⟨reason, hstep⟩
  · rw [hstep, serve_eq]
    have hasked : (s.after service).asked = (s.after service).cpu := Cpu.storeHost_loadHost _ _
    unfold follow
    cases (s.served service).outcome with
    | proceed => exact .inr ⟨_, rfl, hasked, rfl⟩
    | jump => exact .inr ⟨_, rfl, hasked, rfl⟩
    | resume offset =>
      cases (s.after service).machine.state.stack with
      | nil => exact .inl ⟨_, _, rfl⟩
      | cons => exact .inr ⟨_, rfl, hasked, rfl⟩
    | leave => exact .inl ⟨_, _, rfl⟩
    | fail => exact .inl ⟨_, _, rfl⟩
  · rw [hstep] at hfull
    exact absurd (hroom.symm.trans hfull) Bool.false_ne_true
  · exact .inl ⟨_, _, hstep⟩

end Dynarec68k
