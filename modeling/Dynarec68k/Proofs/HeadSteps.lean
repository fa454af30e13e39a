import Dynarec68k.Proofs.CoupledRuns

namespace Dynarec68k

open Host Relation

variable {site : CodePtr} {gate : Gate} {s t u : Session} {value : UInt32}

namespace Session

/-- A step that leaves the guest as it was. -/
structure Passes (s t : Session) : Prop where
  step : s.step = .next t
  cpu : t.cpu = s.cpu
  asked : t.asked = s.asked

/-- From one session to another, with the guest as it was all the way. -/
def Idles : Session → Session → Prop :=
  ReflTransGen Passes

namespace Idles

theorem trans (h : Idles s t) (h' : Idles t u) : Idles s u :=
  ReflTransGen.trans h h'

theorem path (h : Idles s t) : ReflTransGen Advances s t := by
  induction h with
  | refl => exact .refl
  | tail _ hlast ih => exact ih.tail hlast.step

theorem cpu (h : Idles s t) : t.cpu = s.cpu := by
  induction h with
  | refl => rfl
  | tail _ hlast ih => exact hlast.cpu.trans ih

theorem asked (h : Idles s t) : t.asked = s.asked := by
  induction h with
  | refl => rfl
  | tail _ hlast ih => exact hlast.asked.trans ih

theorem goto (h : s.step = .next (s.goto site)) : Idles s (s.goto site) :=
  .single ⟨h, rfl, rfl⟩

theorem setFlags {flags : Flags} (h : s.step = .next (s.moved (s.machine.setFlags flags) site)) :
    Idles s (s.moved (s.machine.setFlags flags) site) :=
  .single ⟨h, rfl, rfl⟩

theorem call {stack : List UInt32} (h : s.step = .next ((s.setStack stack).goto site)) :
    Idles s ((s.setStack stack).goto site) :=
  .single ⟨h, rfl, rfl⟩

theorem load (h : s.step = .next (s.moved (s.machine.setReg Role.scratch1 .long value) site)) :
    Idles s (s.moved (s.machine.setReg Role.scratch1 .long value) site) := by
  refine .single ⟨h, rfl, ?_⟩
  have hregisters : s.cpu.config.registerAssignment.spill
      (s.machine.setReg Role.scratch1 .long value) =
        s.cpu.config.registerAssignment.spill s.machine :=
    Machine.spill_setReg_scratch _ _ .first _
  have hother {r : Reg} (hr : r ≠ Role.scratch1) :
      (s.machine.setReg Role.scratch1 .long value).state.reg r = s.machine.state.reg r :=
    (State.reg_setReg _ (by decide) _ _).trans (if_neg hr)
  change { s.cpu with
    registers := s.cpu.config.registerAssignment.spill (s.machine.setReg Role.scratch1 .long value)
    cycle := (s.machine.setReg Role.scratch1 .long value).state.reg Role.cycles
    limit := (s.machine.setReg Role.scratch1 .long value).state.reg Role.limit } = s.asked
  rw [hregisters, hother (by decide), hother (by decide)]
  rfl

end Idles

/-- In a gate, with an argument, and the guest as it was. -/
structure Enters (s : Session) (gate : Gate) (value : UInt32) (t : Session) : Prop where
  idles : Idles s t
  op : t.cpu.store.code.op? t.site = some (.service gate.service)
  first : t.machine.state.reg Role.scratch1 = value

theorem Enters.path (h : s.Enters gate value t) : ReflTransGen Advances s t :=
  h.idles.path

theorem Enters.asked (h : s.Enters gate value t) : t.asked = s.asked :=
  h.idles.asked

theorem Enters.step (h : s.Enters gate value t) : t.step = t.serve gate.service := by
  rw [Session.step, h.op]

theorem Enters.trans (h : Idles s t) (h' : t.Enters gate value u) : s.Enters gate value u :=
  ⟨h.trans h'.idles, h'.op, h'.first⟩

/-- In a gate that was called, and goes back to a position. -/
structure Calls (s : Session) (gate : Gate) (value : UInt32) (back : CodePtr) (t : Session) : Prop
    extends s.Enters gate value t where
  site : t.site = gate.entry
  stack : t.machine.state.stack = back :: s.machine.state.stack

section

variable {n : Nat} {opened checked : UInt32}
  (hroom : s.cpu.store.code.ops.size < 2 ^ 31) (hsite : s.site = n.toUInt32)
include hroom hsite

theorem at_boundary_early (hhead : s.cpu.store.code.HeadAt n .boundary opened checked none)
    (hearly : s.asked.cycle < s.asked.limit) :
    Idles s (s.moved (s.machine.setFlags s.machine.compared) (n + 4).toUInt32) := by
  have hcompared := step_data hroom hsite hhead.first rfl (Coupling.perform_compare s.machine)
  have hbelow : (s.machine.setFlags s.machine.compared).state.flags.holds .below = true :=
    (s.machine.compared_below).trans (decide_eq_true hearly)
  have hjump := step_taken (s := s.moved (s.machine.setFlags s.machine.compared) (n + 1).toUInt32)
    hroom rfl hhead.second hbelow
  rw [show (n + 1).toUInt32 + 1 + (2 : Int32).toUInt32 = (n + 4).toUInt32 from add_ofNat (n + 1) 2]
    at hjump
  exact (Idles.setFlags hcompared).trans (.goto hjump)

variable (hgates : ∀ (i : Nat) op, Gate.code[i]? = some op → s.cpu.store.code.ops[i]? = some op)
include hgates

omit hsite in
theorem op?_gate (gate : Gate) :
    s.cpu.store.code.op? gate.entry = some (.service gate.service) := by
  have hop := op?_of_room hroom (hgates _ _ gate.code_entry)
  rwa [show gate.entry.toNat.toUInt32 = gate.entry from UInt32.ofNat_toNat] at hop

theorem at_call (hcall : s.cpu.store.code.ops[n]? = some (.call (relativeTo n.toUInt32 gate.entry)))
    (hfirst : s.machine.state.reg Role.scratch1 = value) :
    ∃ t, s.Calls gate value (n + 1).toUInt32 t :=
  ⟨_, ⟨.call (step_call hroom hsite hcall), op?_gate hroom hgates gate, hfirst⟩, rfl, rfl⟩

theorem at_boundary_due (hhead : s.cpu.store.code.HeadAt n .boundary opened checked none)
    (hdue : s.asked.limit ≤ s.asked.cycle) :
    ∃ t, s.Calls .synchronize checked (n + 4).toUInt32 t := by
  have hcompared := step_data hroom hsite hhead.first rfl (Coupling.perform_compare s.machine)
  have hnot : (s.machine.setFlags s.machine.compared).state.flags.holds .below = false :=
    (s.machine.compared_below).trans (decide_eq_false (UInt32.not_lt.mpr hdue))
  let r := s.moved (s.machine.setFlags s.machine.compared) (n + 1).toUInt32
  have hpassed : r.step = .next (r.goto (n + 2).toUInt32) :=
    step_passed (s := r) hroom rfl hhead.second hnot
  let r' := r.goto (n + 2).toUInt32
  have hload : r'.step = .next (r'.moved (r'.machine.setReg Role.scratch1 .long checked)
      (n + 3).toUInt32) :=
    step_data (s := r') hroom rfl hhead.third rfl (Coupling.perform_load r'.machine checked)
  obtain ⟨t, hcalls⟩ := at_call
    (s := r'.moved (r'.machine.setReg Role.scratch1 .long checked) (n + 3).toUInt32) hroom rfl hgates
    hhead.fourth (Coupling.setReg_first _ _)
  have hidles := ((Idles.setFlags hcompared).trans (.goto hpassed)).trans (.load hload)
  exact ⟨t, .trans hidles hcalls.toEnters, hcalls.site, hcalls.stack⟩

theorem at_redirected (hhead : s.cpu.store.code.HeadAt n .redirected opened checked none) :
    ∃ t, s.Enters .refresh opened t := by
  have hload := step_data hroom hsite hhead.first rfl (Coupling.perform_load s.machine opened)
  let r := s.moved (s.machine.setReg Role.scratch1 .long opened) (n + 1).toUInt32
  have hjump : r.step = .next (r.goto Gate.refresh.entry) := by
    have hstep := step_jump (s := r) hroom rfl hhead.second
    rwa [branch_relativeTo] at hstep
  exact ⟨_, (Idles.load hload).trans (.goto hjump), op?_gate hroom hgates .refresh,
    Coupling.setReg_first _ _⟩

theorem at_breakpoint (hhead : s.cpu.store.code.HeadAt n .breakpoint opened checked none) :
    ∃ t, s.Calls .breakpoint opened (n + 2).toUInt32 t := by
  have hload := step_data hroom hsite hhead.first rfl (Coupling.perform_load s.machine opened)
  obtain ⟨t, hcalls⟩ := at_call
    (s := s.moved (s.machine.setReg Role.scratch1 .long opened) (n + 1).toUInt32) hroom rfl hgates
    hhead.second (Coupling.setReg_first _ _)
  exact ⟨t, .trans (.load hload) hcalls.toEnters, hcalls.site, hcalls.stack⟩

end

end Session

end Dynarec68k
