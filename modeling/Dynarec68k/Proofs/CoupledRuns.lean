import Dynarec68k.Proofs.Confinement
import Dynarec68k.Proofs.SessionSteps

/-!
Runs of coupled processors. Two sessions meet at the head of a unit, or inside it where their hosts
keep pace. From there the left one takes its steps and the right one follows, until they meet again
or both runs are over: `Meets.goes`. A session that leads to such places is never lost, whatever
step it is at.
-/

namespace Dynarec68k

open Host Relation Role Session Machine

variable {a b site : CodePtr} {gate : Gate} {i j n n' : Nat} {p : Pair} {P P' : Pair → Prop}
  {T s t : Session} {checked opened value x : UInt32}

/-- What user mode has to keep of a register file, from a number of exceptions on; nothing is
watched if there is no such number. -/
structure Watch where
  file : RegisterFile
  since : Option Nat
  user : since ≠ none → file.supervisor = false

namespace Watch

def on (watch : Watch) (cpu : Cpu) : Bool :=
  decide (watch.since = some cpu.counters.exceptions)

/-- As long as no exception is taken, what user mode keeps is still there. -/
structure Sees (watch : Watch) (cpu : Cpu) (file : RegisterFile) : Prop where
  past : ∀ n, watch.since = some n → n ≤ cpu.counters.exceptions
  kept : watch.on cpu = true → ∀ k, RegisterFile.Kept true k → file.byteAt k = watch.file.byteAt k

theorem user_of_on {watch : Watch} {cpu : Cpu} (h : watch.on cpu = true) :
    watch.file.supervisor = false := by
  refine watch.user ?_
  rw [of_decide_eq_true h]
  exact nofun

namespace Sees

variable {watch : Watch} {cpu : Cpu}

theorem confined {m m' : Machine} (h : watch.Sees cpu m.file)
    (hm : Confined (watch.on cpu) m m') : watch.Sees cpu m'.file where
  past := h.past
  kept := by
    intro hon k hk
    rw [hon] at hm
    rw [hm.kept k hk, h.kept hon k hk]

/-- Exceptions are counted, and without one what was there is there. -/
theorem change {cpu' : Cpu} {file file' : RegisterFile} (h : watch.Sees cpu file)
    (hcounted : cpu.counters.exceptions ≤ cpu'.counters.exceptions)
    (hkept : watch.on cpu = true → cpu'.counters.exceptions = cpu.counters.exceptions →
      ∀ k, RegisterFile.Kept true k → file'.byteAt k = file.byteAt k) : watch.Sees cpu' file' := by
  refine ⟨fun n hn => Nat.le_trans (h.past n hn) hcounted, ?_⟩
  intro hon k hk
  have hsince : watch.since = some cpu'.counters.exceptions := of_decide_eq_true hon
  have hsame : cpu'.counters.exceptions = cpu.counters.exceptions :=
    Nat.le_antisymm (h.past _ hsince) hcounted
  have hbefore : watch.on cpu = true := by
    rw [on, hsince, hsame]
    exact decide_eq_true rfl
  rw [hkept hbefore hsame k hk, h.kept hbefore k hk]

theorem served (h : watch.Sees s.cpu s.machine.file) {service : Service}
    (hservice : watch.on s.cpu = true → service.privileged = false) :
    watch.Sees (s.served service).cpu (s.served service).cpu.registers := by
  refine h.change (s.asked.exceptions_serve s.machine.state service) ?_
  intro hon hsame k hk
  have hconfined := s.asked.confined_serve s.machine.state (hservice hon)
  have hspill : s.asked.registers.byteAt k = s.machine.file.byteAt k :=
    s.cpu.config.registerAssignment.spill_kept s.machine hk
  rw [← hspill]
  exact hconfined.kept hsame k hk

end Sees

end Watch

namespace Gate

def service : Gate → Service
  | .read8 => .read8
  | .read16 => .read16
  | .read32 => .read32
  | .write8 => .write8
  | .write16 => .write16
  | .write32 => .write32
  | .write32LowFirst => .write32LowFirst
  | .synchronize => .synchronize
  | .locate => .locate
  | .refresh => .refresh
  | .breakpoint => .breakpoint

theorem code_entry (gate : Gate) : code[gate.entry.toNat]? = some (.service gate.service) := by
  cases gate <;> rfl

def returns : Gate → Bool
  | .refresh => false
  | .breakpoint => false
  | _ => true

theorem code_entry_succ (h : gate.returns = true) : code[gate.entry.toNat + 1]? = some .ret := by
  cases gate <;> first | rfl | exact absurd h Bool.false_ne_true

theorem entry_lt (gate : Gate) : gate.entry.toNat < code.length :=
  (List.getElem?_eq_some_iff.mp gate.code_entry).1

theorem entry_succ_lt (h : gate.returns = true) : (gate.entry + 1).toNat < code.length := by
  cases gate <;> first | decide | exact absurd h Bool.false_ne_true

theorem of_isAccess (h : gate.isAccess = true) :
    gate.returns = true ∧ gate.service.isAccess = true := by
  cases gate <;> first | exact ⟨rfl, rfl⟩ | exact absurd h Bool.false_ne_true

theorem not_privileged (gate : Gate) : gate.service.privileged = false := by
  cases gate <;> rfl

end Gate

namespace Host.Machine

def unstacked (m : Machine) : Machine :=
  { m with state := { m.state with stack := [] } }

theorem unstacked_of_stack {m : Machine} (h : m.state.stack = []) : m.unstacked = m := by
  obtain ⟨⟨regs, flags, stack⟩, file⟩ := m
  obtain rfl : stack = [] := h
  rfl

theorem unstacked_reg (m : Machine) (r : Reg) : m.unstacked.state.reg r = m.state.reg r :=
  rfl

def compared (m : Machine) : Flags :=
  (subWith .long (m.state.reg cycles) (m.state.reg limit) false).2

theorem compared_below (m : Machine) :
    m.compared.holds .below = decide (m.state.reg cycles < m.state.reg limit) :=
  rfl

end Host.Machine

namespace Session

theorem answer_flags (service : Service) : (s.answer service).flags = s.machine.state.flags := by
  unfold answer
  split <;> rfl

theorem answer_stack (service : Service) : (s.answer service).stack = s.machine.state.stack := by
  unfold answer
  split <;> rfl

theorem answer_scratch (service : Service) {r : Scratch} (h : r ≠ .first) :
    (s.answer service).reg r.reg = s.machine.state.reg r.reg := by
  unfold answer
  split
  · rw [State.reg_setReg _ (by decide), if_neg]
    exact fun heq => h (Scratch.reg_injective (t := .first) heq)
  · rfl

theorem answer_first_some {service : Service} (h : (s.served service).result = some value) :
    (s.answer service).reg scratch1 = value := by
  rw [answer, h]
  exact (State.reg_setReg _ (by decide) _ _).trans (if_pos rfl)

theorem answer_first_none {service : Service} (h : (s.served service).result = none) :
    (s.answer service).reg scratch1 = s.machine.state.reg scratch1 := by
  rw [answer, h]

def back (s : Session) (service : Service) (site : CodePtr) : Session :=
  ((s.after service).setStack []).goto site

theorem back_machine (service : Service) (site : CodePtr) :
    (s.back service site).machine =
      ((s.served service).cpu.loadHost (s.answer service)).unstacked :=
  rfl

theorem back_ready (s : Session) (service : Service) (site : CodePtr) :
    (s.back service site).machine.Ready :=
  ⟨Cpu.loadHost_context _ _, rfl⟩

theorem serve_proceed {service : Service} (h : (s.served service).outcome = .proceed) :
    s.serve service = .next ((s.after service).goto (s.site + 1)) := by
  rw [serve_eq, h]
  rfl

theorem serve_jump {service : Service} {native : CodePtr}
    (h : (s.served service).outcome = .jump native) :
    s.serve service = .next (s.back service native) := by
  rw [serve_eq, h]
  rfl

theorem serve_leave {service : Service} (h : (s.served service).outcome = .leave) :
    s.serve service = .done (.ok ()) (s.served service).cpu := by
  rw [serve_eq, h]
  rfl

theorem serve_fail {service : Service} {e : CpuError} (h : (s.served service).outcome = .fail e) :
    s.serve service = .done (.error e) (s.served service).cpu := by
  rw [serve_eq, h]
  rfl

theorem serve_resume {service : Service} {offset : UInt32}
    (h : (s.served service).outcome = .resume offset) (hstack : s.machine.state.stack = [site]) :
    s.serve service = .next (s.back service (site + offset)) := by
  have hopen : (s.after service).machine.state.stack = [site] :=
    (Cpu.loadHost_stack _ _).trans ((answer_stack service).trans hstack)
  rw [serve_eq, h]
  unfold follow
  rw [hopen]
  rfl

theorem serve_back {service : Service} (h : (s.served service).outcome = .proceed)
    (hstack : s.machine.state.stack = []) :
    s.serve service = .next (s.back service (s.site + 1)) := by
  have hempty : ((s.served service).cpu.loadHost (s.answer service)).state.stack = [] := by
    rw [Cpu.loadHost_stack, answer_stack, hstack]
  rw [serve_proceed h, back]
  congr 1
  have hsame := unstacked_of_stack hempty
  exact congrArg (fun machine => (s.after service).moved machine (s.site + 1)) hsame.symm

theorem fits_served (s : Session) (service : Service) :
    (s.serve service).cpu.Fits ↔ (s.served service).cpu.Fits := by
  rw [serve_eq]
  unfold follow
  cases (s.served service).outcome with
  | resume offset => cases (s.after service).machine.state.stack <;> exact Iff.rfl
  | _ => exact Iff.rfl

end Session

namespace Coupling

variable {C : Coupling}

theorem Twins.linked {x y : Cpu} (h : C.Twins P x y) :
    Linked C.config C.left C.right P x.store y.store := by
  obtain ⟨c, s, t, rfl, rfl, hrel⟩ := h
  exact C.linked hrel

theorem Twins.assignments {x y : Cpu} (h : C.Twins P x y) :
    x.config.registerAssignment = C.left ∧ y.config.registerAssignment = C.right := by
  obtain ⟨c, s, t, rfl, rfl, -⟩ := h
  exact ⟨rfl, rfl⟩

theorem Twins.loaded {x y : Cpu} (h : C.Twins P x y) {σ τ : State} {g : Grade} (hg : g ≠ .stop)
    (hscratch : ∀ r : Scratch, r ≠ .cycles → (r = .first → g = .tight) →
      σ.reg r.reg = τ.reg r.reg)
    (hflags : σ.flags = τ.flags) :
    Alike g C.left C.right (x.loadHost σ).unstacked (y.loadHost τ).unstacked where
  reached := hg
  file := by
    obtain ⟨hleft, hright⟩ := h.assignments
    have hx := x.spill_loadHost σ
    have hy := y.spill_loadHost τ
    rw [hleft] at hx
    rw [hright] at hy
    exact hx.trans (h.registers.symm.trans hy.symm)
  scratch := by
    intro r hr
    rw [unstacked_reg, unstacked_reg]
    by_cases hcycles : r = .cycles
    · subst hcycles
      have hsame : y.cycle = x.cycle := h.reading Cpu.cycle fun _ _ _ => rfl
      exact (x.loadHost_cycles σ).trans (hsame.symm.trans (y.loadHost_cycles τ).symm)
    rw [x.loadHost_scratch σ hcycles, y.loadHost_scratch τ hcycles]
    exact hscratch r hcycles hr
  limit := by
    have hsame : y.limit = x.limit := h.reading Cpu.limit fun _ _ _ => rfl
    exact (x.loadHost_limit σ).trans (hsame.symm.trans (y.loadHost_limit τ).symm)
  flags := by
    have hx := x.loadHost_flags σ
    have hy := y.loadHost_flags τ
    exact hx.trans (hflags.trans hy.symm)
  left := ⟨x.loadHost_context σ, rfl⟩
  right := ⟨y.loadHost_context τ, rfl⟩

/-- What a step can be: a move of the host alone, a call or a return, or a service. -/
inductive Plain (u : Bool) (s : Session) : Prop where
  | moves {machine : Machine} {site : CodePtr} (step : s.step = .next (s.moved machine site))
      (kept : Confined u s.machine machine)
  | turns {stack : List UInt32} {site : CodePtr}
      (step : s.step = .next ((s.setStack stack).goto site))
  | serves {service : Service} (step : s.step = s.serve service)
      (user : u = true → service.privileged = false)

theorem Plain.goto {u : Bool} (h : s.step = .next (s.goto site)) : Plain u s :=
  .moves h (.refl u s.machine)

/-- Answers of a run that guest code can lead to. -/
def Benign (result : Except CpuError Unit) : Prop :=
  ∀ e, result = .error e → e.isGuest = true

section

variable (C)

/-- The code of a unit on either side. -/
abbrev leftCode (unit : CodeUnit) : Fragment :=
  unit.body (C.config.assign C.left)

abbrev rightCode (unit : CodeUnit) : Fragment :=
  unit.body (C.config.assign C.right)

/-- The hosts keep pace inside a unit. -/
abbrev InPace (w : Watch) (u : Bool) (unit : CodeUnit) : Pairing :=
  Paced C.left C.right u (C.leftCode unit) (C.rightCode unit)
    (Within C.left C.right w.file u (if unit.falls then .loose else .stop))

/-- Sessions at the head of one unit, or inside it where their hosts keep pace. -/
inductive Meets (w : Watch) (P : Pair → Prop) (s t : Session) : Prop where
  | head {p : Pair} (twins : C.Twins P s.cpu t.cpu) (sees : w.Sees s.cpu s.machine.file) (hp : P p)
      (left : s.site = p.left.toUInt32) (right : t.site = p.right.toUInt32)
      (alike : Alike .loose C.left C.right s.machine t.machine)
  | body {p : Pair} {i j : Nat} (twins : C.Twins P s.cpu t.cpu)
      (sees : w.Sees s.cpu s.machine.file) (hp : P p) (ready : s.machine.Ready)
      (left : s.site = (p.left + 4 + i).toUInt32) (right : t.site = (p.right + 4 + j).toUInt32)
      (paced : C.InPace w (w.on s.cpu) p.unit i s.machine j t.machine)

/-- What is known of a session at any step. -/
structure Holds (w : Watch) (P : Pair → Prop) (s : Session) : Prop where
  twins : ∃ y, C.Twins P s.cpu y
  sees : w.Sees s.cpu s.machine.file
  /-- Calls are open in gates only. -/
  clear : s.machine.Ready ∨ s.site.toNat < Gate.code.length

/-- Both runs are over, with the same answer. -/
def Finishes (w : Watch) (T : Session) (P : Pair → Prop) (result : Except CpuError Unit) (c : Cpu) :
    Prop :=
  Benign result ∧ w.Sees c c.registers ∧
    ∃ t c', ReflTransGen Advances T t ∧ t.step = .done result c' ∧ C.Twins P c c'

/-- A session whose next steps lead to a place where it meets one that `T` comes to, as long as its
code fits. -/
inductive Leads (w : Watch) (T : Session) : (Pair → Prop) → Session → Prop where
  | meet {P : Pair → Prop} {s t : Session} (path : ReflTransGen Advances T t)
      (meets : C.Meets w P s t) : Leads w T P s
  | next {P P' : Pair → Prop} {s s' : Session} (plain : Plain (w.on s.cpu) s)
      (step : s.step = .next s') (adds : C.Adds P P' s'.cpu) (holds : C.Holds w P' s')
      (rest : Leads w T P' s') : Leads w T P s
  | done {P P' : Pair → Prop} {s : Session} {result : Except CpuError Unit} {c : Cpu}
      (plain : Plain (w.on s.cpu) s) (step : s.step = .done result c) (adds : C.Adds P P' c)
      (finishes : C.Finishes w T P' result c) : Leads w T P s
  | full {P : Pair → Prop} {s : Session} (plain : Plain (w.on s.cpu) s)
      (large : ¬s.step.cpu.Fits) : Leads w T P s

/-- The next step of a session leads on. -/
structure Goes (w : Watch) (T : Session) (P : Pair → Prop) (s : Session) : Prop where
  plain : Plain (w.on s.cpu) s
  next : ∀ s', s.step = .next s' → s'.cpu.Fits →
    ∃ P' : Pair → Prop, C.Adds P P' s'.cpu ∧ C.Holds w P' s' ∧ C.Leads w T P' s'
  done : ∀ result c, s.step = .done result c → c.Fits →
    ∃ P' : Pair → Prop, C.Adds P P' c ∧ C.Finishes w T P' result c

end

namespace Goes

variable {w : Watch} {s' : Session}

theorem leads (h : C.Goes w T P s) : C.Leads w T P s := by
  by_cases hfits : s.step.cpu.Fits
  · cases hstep : s.step with
    | next s' =>
      rw [hstep] at hfits
      obtain ⟨P', hadds, hholds, hleads⟩ := h.next s' hstep hfits
      exact .next h.plain hstep hadds hholds hleads
    | done result c =>
      rw [hstep] at hfits
      obtain ⟨P', hadds, hfinishes⟩ := h.done result c hstep hfits
      exact .done h.plain hstep hadds hfinishes
  · exact .full h.plain hfits

theorem of_next (hplain : Plain (w.on s.cpu) s) (hstep : s.step = .next s')
    (h : s'.cpu.Fits → ∃ P' : Pair → Prop, C.Adds P P' s'.cpu ∧ C.Holds w P' s' ∧
      C.Leads w T P' s') : C.Goes w T P s where
  plain := hplain
  next := by
    intro s'' hstep' hfits
    obtain rfl := Step.next.inj (hstep.symm.trans hstep')
    exact h hfits
  done := by
    intro result c hstep'
    exact nomatch hstep.symm.trans hstep'

theorem of_not_fits (hplain : Plain (w.on s.cpu) s) (h : ¬s.step.cpu.Fits) : C.Goes w T P s where
  plain := hplain
  next := by
    intro s' hstep hfits
    rw [hstep] at h
    exact absurd hfits h
  done := by
    intro result c hstep hfits
    rw [hstep] at h
    exact absurd hfits h

theorem of_done (hplain : Plain (w.on s.cpu) s) {result : Except CpuError Unit} {c : Cpu}
    (hstep : s.step = .done result c) (hadds : C.Adds P P' c) (h : C.Finishes w T P' result c) :
    C.Goes w T P s where
  plain := hplain
  next := by
    intro s' hstep'
    exact nomatch hstep.symm.trans hstep'
  done := by
    rintro result' c' hstep' -
    obtain ⟨rfl, rfl⟩ := Step.done.inj (hstep.symm.trans hstep')
    exact ⟨P', hadds, h⟩

theorem of_serves {service : Service} (hstep : s.step = s.serve service)
    (hu : w.on s.cpu = true → service.privileged = false)
    (h : (s.served service).cpu.Fits → C.Goes w T P s) : C.Goes w T P s := by
  by_cases hfits : (s.served service).cpu.Fits
  · exact h hfits
  · refine .of_not_fits (.serves hstep hu) ?_
    rw [hstep, fits_served]
    exact hfits

end Goes

end Coupling

namespace Session

def calling (s : Session) (n : Nat) (gate : Gate) : Session :=
  (s.setStack [(n + 1).toUInt32]).goto gate.entry

theorem calling_machine (hstack : s.machine.state.stack = []) (n : Nat) (gate : Gate) :
    (s.calling n gate).machine.unstacked = s.machine :=
  unstacked_of_stack hstack

variable (hroom : s.cpu.store.code.ops.size < 2 ^ 31)
  (hgates : ∀ (i : Nat) op, Gate.code[i]? = some op → s.cpu.store.code.ops[i]? = some op)
include hroom hgates

theorem step_gate (hsite : s.site = gate.entry) : s.step = s.serve gate.service := by
  refine step_service hroom (n := gate.entry.toNat) ?_ (hgates _ _ gate.code_entry)
  rw [hsite]
  exact (UInt32.ofNat_toNat).symm

theorem step_return (hgate : gate.returns = true) (hsite : s.site = gate.entry + 1) {back : CodePtr}
    (hstack : s.machine.state.stack = [back]) : s.step = .next ((s.setStack []).goto back) := by
  refine step_ret hroom (n := gate.entry.toNat + 1) ?_ (hgates _ _ (Gate.code_entry_succ hgate)) hstack
  rw [hsite, ← toUInt32_succ]
  exact congrArg (· + 1) (UInt32.ofNat_toNat).symm

end Session

namespace Coupling

variable {C : Coupling} {w : Watch} {g : Grade} (m : Machine)

theorem Twins.room {x y : Cpu} (h : C.Twins P x y) :
    x.store.code.ops.size < 2 ^ 31 ∧ y.store.code.ops.size < 2 ^ 31 :=
  ⟨h.linked.roomLeft, h.linked.roomRight⟩

variable (C) in
/-- There is room for the code of the right processor, whatever a run from `T` comes to. -/
def Roomy (T : Session) : Prop :=
  C.OneSided ∨ ∀ t, ReflTransGen Advances T t → t.step.cpu.Fits

variable (C) in
/-- Sessions side by side, the right one reached from `T`. Both may have a call open. -/
structure Abreast (w : Watch) (T : Session) (P : Pair → Prop) (g : Grade) (s t : Session) :
    Prop where
  right : C.Roomy T
  path : ReflTransGen Advances T t
  twins : C.Twins P s.cpu t.cpu
  sees : w.Sees s.cpu s.machine.file
  alike : Alike g C.left C.right s.machine.unstacked t.machine.unstacked

variable (C) in
/-- Sessions side by side, with no call open. -/
structure Level (w : Watch) (T : Session) (P : Pair → Prop) (g : Grade) (s t : Session) :
    Prop where
  right : C.Roomy T
  path : ReflTransGen Advances T t
  twins : C.Twins P s.cpu t.cpu
  sees : w.Sees s.cpu s.machine.file
  alike : Alike g C.left C.right s.machine t.machine

theorem Meets.of_alike (htwins : C.Twins P s.cpu t.cpu) (hsees : w.Sees s.cpu s.machine.file)
    (hp : P p) (hs : s.site = (p.left + 4).toUInt32) (ht : t.site = (p.right + 4).toUInt32)
    (halike : Alike .loose C.left C.right s.machine t.machine) : C.Meets w P s t := by
  have hparallel := CodeUnit.body_parallel (a := C.left) (b := C.right) (u := w.on s.cpu) C.config
    (htwins.linked.pairs p hp).shaped
  exact .body (i := 0) (j := 0) htwins hsees hp halike.left hs ht
    (hparallel.sim _ Watch.user_of_on s.machine t.machine ⟨halike, hsees.kept⟩)

namespace Level

theorem abreast (h : C.Level w T P g s t) : C.Abreast w T P g s t := by
  refine ⟨h.right, h.path, h.twins, h.sees, ?_⟩
  rw [unstacked_of_stack h.alike.left.stack,
    unstacked_of_stack h.alike.right.stack]
  exact h.alike

theorem holds (h : C.Level w T P g s t) : C.Holds w P s :=
  ⟨⟨_, h.twins⟩, h.sees, .inl h.alike.left⟩

theorem meets_head (h : C.Level w T P .loose s t) (hp : P p) (hs : s.site = p.left.toUInt32)
    (ht : t.site = p.right.toUInt32) : C.Leads w T P s :=
  .meet h.path (.head h.twins h.sees hp hs ht h.alike)

theorem meets_body (h : C.Level w T P .loose s t) (hp : P p) (hs : s.site = (p.left + 4).toUInt32)
    (ht : t.site = (p.right + 4).toUInt32) : C.Leads w T P s :=
  .meet h.path (.of_alike h.twins h.sees hp hs ht h.alike)

theorem moves (h : C.Level w T P g s t) {g' : Grade} {m n : Machine}
    (hs : s.step = .next (s.moved m a)) (ht : t.step = .next (t.moved n b))
    (hkept : Confined (w.on s.cpu) s.machine m) (halike : Alike g' C.left C.right m n)
    (hnext : C.Level w T P g' (s.moved m a) (t.moved n b) → C.Leads w T P (s.moved m a)) :
    C.Goes w T P s := by
  have hmoved : C.Level w T P g' (s.moved m a) (t.moved n b) :=
    ⟨h.right, h.path.tail ht, h.twins, h.sees.confined hkept, halike⟩
  exact .of_next (.moves hs hkept) hs fun _ => ⟨P, .refl _, hmoved.holds, hnext hmoved⟩

theorem jumps (h : C.Level w T P g s t) (hs : s.step = .next (s.goto a))
    (ht : t.step = .next (t.goto b))
    (hnext : C.Level w T P g (s.goto a) (t.goto b) → C.Leads w T P (s.goto a)) : C.Goes w T P s :=
  h.moves hs ht (.refl _ s.machine) h.alike hnext

theorem calls (h : C.Level w T P g s t) (hs : s.site = n.toUInt32) (ht : t.site = n'.toUInt32)
    (hcall : s.cpu.store.code.Holds n (.call gate))
    (hcall' : t.cpu.store.code.Holds n' (.call gate))
    (hnext : C.Abreast w T P g (s.calling n gate) (t.calling n' gate) →
      C.Goes w T P (s.calling n gate)) : C.Goes w T P s := by
  have hstep : s.step = .next (s.calling n gate) := by
    rw [step_call h.twins.room.1 hs hcall, h.alike.left.stack]
    rfl
  have hstep' : t.step = .next (t.calling n' gate) := by
    rw [step_call h.twins.room.2 ht hcall', h.alike.right.stack]
    rfl
  have hcalling : C.Abreast w T P g (s.calling n gate) (t.calling n' gate) := by
    refine ⟨h.right, h.path.tail hstep', h.twins, h.sees, ?_⟩
    rw [calling_machine h.alike.left.stack, calling_machine h.alike.right.stack]
    exact h.alike
  exact .of_next (.turns hstep) hstep fun _ =>
    ⟨P, .refl _, ⟨⟨_, h.twins⟩, h.sees, .inr gate.entry_lt⟩, (hnext hcalling).leads⟩

end Level

namespace Abreast

variable {service : Service} (h : C.Abreast w T P g s t)
include h

theorem asked : C.Twins P s.asked t.asked := by
  have hfile : C.left.spill s.machine = C.right.spill t.machine := h.alike.file
  have hcycles : s.machine.state.reg cycles = t.machine.state.reg cycles :=
    h.alike.scratch .cycles nofun
  have hlimit : s.machine.state.reg limit = t.machine.state.reg limit := h.alike.limit
  obtain ⟨c, σ, τ, hx, hy, hrel⟩ := h.twins
  refine ⟨{ c with
    registers := C.left.spill s.machine
    cycle := s.machine.state.reg cycles
    limit := s.machine.state.reg limit }, σ, τ, ?_, ?_, hrel⟩
  · rw [Session.asked, hx]
    rfl
  · rw [Session.asked, hy, hfile, hcycles, hlimit]
    rfl

theorem fit (ht : t.step = t.serve service) (hfits : (s.served service).cpu.Fits) :
    C.Fit (s.served service).cpu (t.served service).cpu := by
  refine ⟨hfits, h.right.imp_right fun hall => ?_⟩
  have hfits := hall t h.path
  rw [ht] at hfits
  exact (t.fits_served service).mp hfits

theorem sameArguments (hfirst : service.takesFirst = true → g = .tight)
    (hcaller : t.cpu.caller? t.machine.state = s.cpu.caller? s.machine.state) :
    SameArguments service s.asked t.asked s.machine.state t.machine.state where
  first htakes := (h.alike.scratch .first fun _ => hfirst htakes).symm
  second := (h.alike.scratch .second nofun).symm
  third := (h.alike.scratch .third nofun).symm
  caller := hcaller

theorem answer_first (hresult : (t.served service).result = (s.served service).result)
    (hg : g = .tight) :
    (s.answer service).reg scratch1 = (t.answer service).reg scratch1 := by
  cases hvalue : (s.served service).result with
  | some value =>
    rw [answer_first_some hvalue, answer_first_some (hresult.trans hvalue)]
  | none =>
    rw [answer_first_none hvalue, answer_first_none (hresult.trans hvalue)]
    exact h.alike.scratch .first fun _ => hg

/-- Twins that a service gives back to are level again. -/
theorem back {k : Grade} (htwins : C.Twins P' (s.served service).cpu (t.served service).cpu)
    (hu : w.on s.cpu = true → service.privileged = false)
    (hpath : ReflTransGen Advances T (t.back service b)) (hreached : k ≠ .stop)
    (hfirst : k = .tight →
      (s.answer service).reg scratch1 = (t.answer service).reg scratch1) :
    C.Level w T P' k (s.back service a) (t.back service b) := by
  refine ⟨h.right, hpath, htwins, h.sees.served hu, htwins.loaded hreached ?_ ?_⟩
  · intro r _ hr
    by_cases hscratch : r = .first
    · subst hscratch
      exact hfirst (hr rfl)
    · rw [answer_scratch service hscratch, answer_scratch service hscratch]
      exact h.alike.scratch r fun heq => absurd heq hscratch
  · rw [answer_flags, answer_flags]
    exact h.alike.flags

theorem diverts (hs : s.step = s.serve service) (ht : t.step = t.serve service)
    (hu : w.on s.cpu = true → service.privileged = false)
    (hdiverts : C.Diverts P ((s.served service).outcome, (s.served service).cpu)
      ((t.served service).outcome, (t.served service).cpu)) : C.Goes w T P s := by
  have hsees := h.sees.served hu
  obtain ⟨P', hadds, htwins, ⟨q, hq, hr, hr'⟩ | ⟨hr, hr'⟩ | ⟨e, he, hr, hr'⟩⟩ := hdiverts
  · have hlevel := h.back (k := .loose) (a := q.left.toUInt32) htwins hu
      (h.path.tail (ht.trans (serve_jump hr'))) nofun nofun
    exact .of_next (.serves hs hu) (hs.trans (serve_jump hr)) fun _ =>
      ⟨P', hadds, hlevel.holds, hlevel.meets_head hq rfl rfl⟩
  · refine .of_done (.serves hs hu) (hs.trans (serve_leave hr)) hadds ⟨?_, hsees, t, _, h.path,
      ht.trans (serve_leave hr'), htwins⟩
    intro e he
    exact nomatch he
  · refine .of_done (.serves hs hu) (hs.trans (serve_fail hr)) hadds ⟨?_, hsees, t, _, h.path,
      ht.trans (serve_fail hr'), htwins⟩
    intro e' he'
    rw [← Except.error.inj he']
    exact he

theorem step_gate (hs : s.site = gate.entry) (ht : t.site = gate.entry) :
    s.step = s.serve gate.service ∧ t.step = t.serve gate.service :=
  ⟨Session.step_gate h.twins.room.1 h.twins.linked.gatesLeft hs,
    Session.step_gate h.twins.room.2 h.twins.linked.gatesRight ht⟩

/-- Both sessions are in a gate that returns unless they are diverted. -/
theorem returns (hgate : gate.returns = true) (hs : s.site = gate.entry) (ht : t.site = gate.entry)
    (hstack : s.machine.state.stack = [a]) (hstack' : t.machine.state.stack = [b])
    (hserve : C.Fit (s.served gate.service).cpu (t.served gate.service).cpu →
      (∃ P' : Pair → Prop, C.Adds P P' (s.served gate.service).cpu ∧
        C.Twins P' (s.served gate.service).cpu (t.served gate.service).cpu ∧
        (s.served gate.service).outcome = .proceed ∧
        (t.served gate.service).outcome = .proceed ∧
        (ReflTransGen Advances T (t.back gate.service b) →
          C.Leads w T P' (s.back gate.service a))) ∨
      C.Diverts P ((s.served gate.service).outcome, (s.served gate.service).cpu)
        ((t.served gate.service).outcome, (t.served gate.service).cpu)) : C.Goes w T P s := by
  have hu : w.on s.cpu = true → gate.service.privileged = false := fun _ => gate.not_privileged
  obtain ⟨hstep, hstep'⟩ := h.step_gate hs ht
  refine .of_serves hstep hu fun hfits => ?_
  rcases hserve (h.fit hstep' hfits) with ⟨P', hadds, htwins, ho, ho', hleads⟩ | hdiverts
  · have hserved := hstep.trans (serve_proceed ho)
    have hserved' := hstep'.trans (serve_proceed ho')
    have hopen (r : Session) : ((r.after gate.service).goto (r.site + 1)).machine.state.stack =
        r.machine.state.stack :=
      (Cpu.loadHost_stack _ _).trans (answer_stack _)
    have hback := step_return (s := (s.after gate.service).goto (s.site + 1))
      htwins.room.1 htwins.linked.gatesLeft hgate (congrArg (· + 1) hs) ((hopen s).trans hstack)
    have hback' := step_return (s := (t.after gate.service).goto (t.site + 1))
      htwins.room.2 htwins.linked.gatesRight hgate (congrArg (· + 1) ht) ((hopen t).trans hstack')
    have hinside : (s.site + 1).toNat < Gate.code.length := hs ▸ Gate.entry_succ_lt hgate
    have hsees := h.sees.served hu
    refine .of_next (.serves hstep hu) hserved fun _ =>
      ⟨P', hadds, ⟨⟨_, htwins⟩, hsees, .inr hinside⟩, Goes.leads ?_⟩
    exact .of_next (.turns hback) hback fun _ =>
      ⟨P', .refl _, ⟨⟨_, htwins⟩, hsees, .inl (back_ready _ _ _)⟩,
        hleads ((h.path.tail hserved').tail hback')⟩
  · exact h.diverts hstep hstep' hu hdiverts

end Abreast

theorem Level.serving (h : C.Level w T P g s t) (hs : s.site = n.toUInt32)
    (ht : t.site = n'.toUInt32) (hgate : gate.returns = true)
    (hcall : s.cpu.store.code.Holds n (.call gate))
    (hcall' : t.cpu.store.code.Holds n' (.call gate))
    (hserves : C.Abreast w T P g (s.calling n gate) (t.calling n' gate) →
      C.Fit ((s.calling n gate).served gate.service).cpu
        ((t.calling n' gate).served gate.service).cpu →
      C.Serves P ((s.calling n gate).served gate.service) ((t.calling n' gate).served gate.service))
    (hback : C.Level w T P g ((s.calling n gate).back gate.service (n + 1).toUInt32)
        ((t.calling n' gate).back gate.service (n' + 1).toUInt32) →
      ((s.calling n gate).served gate.service).outcome = .proceed →
      C.Leads w T P ((s.calling n gate).back gate.service (n + 1).toUInt32)) : C.Goes w T P s := by
  refine h.calls hs ht hcall hcall' fun hinside =>
    hinside.returns hgate rfl rfl rfl rfl fun hfit => ?_
  rcases hserves hinside hfit with ⟨htwins, ho, ho', hresult⟩ | hdiverts
  · refine .inl ⟨P, .refl _, htwins, ho, ho', fun hpath => ?_⟩
    exact hback (hinside.back htwins (fun _ => gate.not_privileged) hpath h.alike.reached
      (hinside.answer_first hresult)) ho
  · exact .inr hdiverts

theorem perform_load (value : UInt32) :
    m.perform (.mov (.imm value) (.reg scratch1) .long) =
      .ok (m.setReg scratch1 .long value) := by
  simp only [Machine.perform, Machine.read, and_mask_long, Machine.write, bind,
    Except.bind]

theorem perform_compare :
    m.perform (.alu .cmp (.reg limit) (.reg cycles) .long) =
      .ok (m.setFlags m.compared) := by
  simp only [Machine.perform, Machine.read, and_mask_long, bind, Except.bind]
  rfl

theorem setReg_confined {u : Bool} (value : UInt32) :
    Confined u m (m.setReg scratch1 .long value) := by
  have hother {r : Reg} (hr : r ≠ scratch1) :
      (m.setReg scratch1 .long value).state.reg r = m.state.reg r :=
    (State.reg_setReg _ (by decide) _ _).trans (if_neg hr)
  exact ⟨fun _ _ => rfl, hother (by decide),
    fun ready => ⟨(hother (by decide)).trans ready.context, ready.stack⟩⟩

theorem setReg_first (value : UInt32) :
    (m.setReg scratch1 .long value).state.reg scratch1 = value := by
  rw [setReg, Alike.merge_long]
  exact (State.reg_setReg _ (by decide) _ _).trans (if_pos rfl)

namespace Level

theorem loads (h : C.Level w T P .loose s t) (hs : s.site = n.toUInt32) (ht : t.site = n'.toUInt32)
    (hload : s.cpu.store.code.ops[n]? = some (.mov (.imm value) (.reg scratch1) .long))
    (hload' : t.cpu.store.code.ops[n']? = some (.mov (.imm value) (.reg scratch1) .long))
    (hnext : ∀ m m', m.state.reg scratch1 = value → m'.state.reg scratch1 = value →
      C.Level w T P .tight (s.moved m (n + 1).toUInt32) (t.moved m' (n' + 1).toUInt32) →
      C.Goes w T P (s.moved m (n + 1).toUInt32)) : C.Goes w T P s :=
  h.moves (step_data h.twins.room.1 hs hload rfl (perform_load s.machine value))
    (step_data h.twins.room.2 ht hload' rfl (perform_load t.machine value))
    (setReg_confined _ _) (h.alike.writeScratch .first .long value) fun hloaded =>
      (hnext _ _ (setReg_first _ _) (setReg_first _ _) hloaded).leads

variable (hp : P p)
include hp

theorem checks (h : C.Level w T P .loose s t) (hs : s.site = (p.left + 2).toUInt32)
    (ht : t.site = (p.right + 2).toUInt32) {kind kind' : EntryKind} {opened' : UInt32}
    {moved moved' : Option Nat} (hhead : s.cpu.store.code.HeadAt p.left kind opened checked moved)
    (hhead' : t.cpu.store.code.HeadAt p.right kind' opened' checked moved') : C.Goes w T P s := by
  refine h.loads hs ht hhead.third hhead'.third fun m n _ _ hloaded => ?_
  refine hloaded.serving rfl rfl (rfl : Gate.synchronize.returns = true) hhead.fourth hhead'.fourth
    (fun hinside => hinside.asked.serve_synchronize ?_) fun hlevel _ => ?_
  · exact (hinside.alike.scratch .first fun _ => rfl).symm
  · exact meets_body ⟨hlevel.right, hlevel.path, hlevel.twins, hlevel.sees, hlevel.alike.loosen⟩ hp
      rfl rfl

theorem stops
    (h : C.Abreast w T P .tight (s.calling (p.left + 1) .breakpoint)
      (t.calling (p.right + 1) .breakpoint))
    (hhead : s.cpu.store.code.HeadAt p.left .breakpoint opened checked none)
    (hm : s.machine.state.reg scratch1 = opened)
    (hn : t.machine.state.reg scratch1 = opened) :
    C.Goes w T P (s.calling (p.left + 1) .breakpoint) := by
  obtain ⟨hstep, hstep'⟩ := h.step_gate (rfl : _ = Gate.breakpoint.entry) rfl
  have hserved (r : Session) (k : Nat) (hr : r.machine.state.reg scratch1 = opened) :
      (r.calling k .breakpoint).served .breakpoint =
        .ofOutcome ((r.calling k .breakpoint).asked.hitBreakpoint opened) := by
    rw [← hr]
    rfl
  have hleft := hserved s (p.left + 1) hm
  have hright := hserved t (p.right + 1) hn
  rw [show Gate.service .breakpoint = .breakpoint from rfl] at hstep hstep'
  refine .of_serves hstep (fun _ => rfl) fun hfits => ?_
  have hfit := h.fit hstep' hfits
  rw [hleft, hright] at hfit
  rcases h.asked.hitBreakpoint hp hhead hfit with ⟨htwins, ho, ho'⟩ | hdiverts
  · have hresume {r : Session} {k : Nat}
        (hr : ((r.calling (k + 1) .breakpoint).served .breakpoint).outcome =
          .resume Cpu.breakpointResume) :
        (r.calling (k + 1) .breakpoint).serve .breakpoint =
          .next ((r.calling (k + 1) .breakpoint).back .breakpoint (k + 4).toUInt32) := by
      rw [show (k + 4).toUInt32 = (k + 1 + 1).toUInt32 + Cpu.breakpointResume from
        toUInt32_add (k + 2) 2]
      exact serve_resume hr rfl
    have hleaves := hstep.trans (hresume (hleft ▸ ho))
    have htwins' : C.Twins P ((s.calling (p.left + 1) .breakpoint).served .breakpoint).cpu
        ((t.calling (p.right + 1) .breakpoint).served .breakpoint).cpu := by
      rw [hleft, hright]
      exact htwins
    have hlevel := h.back (k := .loose) (a := (p.left + 4).toUInt32) htwins' (fun _ => rfl)
      (h.path.tail (hstep'.trans (hresume (hright ▸ ho')))) nofun nofun
    exact .of_next (.serves hstep fun _ => rfl) hleaves fun _ =>
      ⟨P, .refl _, hlevel.holds, hlevel.meets_body hp rfl rfl⟩
  · refine h.diverts hstep hstep' (fun _ => rfl) ?_
    rw [hleft, hright]
    exact hdiverts

variable (h : C.Level w T P .loose s t) (hs : s.site = p.left.toUInt32)
  (ht : t.site = p.right.toUInt32)
include h hs ht

theorem at_boundary
    (hhead : s.cpu.store.code.HeadAt p.left .boundary opened checked none)
    (hhead' : t.cpu.store.code.HeadAt p.right .boundary opened checked none) : C.Goes w T P s := by
  obtain ⟨hroom, hroom'⟩ := h.twins.room
  have halike : Alike .loose C.left C.right (s.machine.setFlags s.machine.compared)
      (t.machine.setFlags t.machine.compared) := by
    have hsame : t.machine.compared = s.machine.compared := by
      rw [compared, compared, h.alike.limit]
      exact congrArg (fun cycle => (subWith .long cycle _ false).2)
        (h.alike.scratch .cycles nofun).symm
    rw [hsame]
    exact h.alike.setFlags _
  refine h.moves (step_data hroom hs hhead.first rfl (perform_compare s.machine))
    (step_data hroom' ht hhead'.first rfl (perform_compare t.machine))
    ⟨fun _ _ => rfl, rfl, fun ready => ⟨ready.context, ready.stack⟩⟩ halike fun hcompared =>
      Goes.leads ?_
  generalize s.machine.setFlags s.machine.compared = m at *
  generalize t.machine.setFlags t.machine.compared = n at *
  have hflags : n.state.flags = m.state.flags := halike.flags.symm
  cases htest : m.state.flags.holds .below with
  | true =>
    have hjump := step_taken (s := s.moved m (p.left + 1).toUInt32) hroom rfl hhead.second
      htest
    have hjump' := step_taken (s := t.moved n (p.right + 1).toUInt32) hroom' rfl
      hhead'.second (hflags ▸ htest)
    have htarget (k : Nat) : (k + 1).toUInt32 + 1 + (2 : Int32).toUInt32 = (k + 4).toUInt32 :=
      add_ofNat (k + 1) 2
    rw [htarget] at hjump hjump'
    exact hcompared.jumps hjump hjump' fun hlevel => hlevel.meets_body hp rfl rfl
  | false =>
    have hpass := step_passed (s := s.moved m (p.left + 1).toUInt32) hroom rfl hhead.second
      htest
    have hpass' := step_passed (s := t.moved n (p.right + 1).toUInt32) hroom' rfl
      hhead'.second (hflags ▸ htest)
    exact hcompared.jumps hpass hpass' fun hlevel => (hlevel.checks hp rfl rfl hhead hhead').leads

theorem at_redirected
    (hhead : s.cpu.store.code.HeadAt p.left .redirected opened checked none)
    (hhead' : t.cpu.store.code.HeadAt p.right .redirected opened checked none) :
    C.Goes w T P s := by
  obtain ⟨hroom, hroom'⟩ := h.twins.room
  refine h.loads hs ht hhead.first hhead'.first fun m n hm hn hloaded => ?_
  have hjump := step_jump (s := s.moved m (p.left + 1).toUInt32) hroom rfl hhead.second
  have hjump' := step_jump (s := t.moved n (p.right + 1).toUInt32) hroom' rfl hhead'.second
  rw [branch_relativeTo] at hjump hjump'
  refine hloaded.jumps hjump hjump' fun hlevel => Goes.leads ?_
  obtain ⟨hstep, hstep'⟩ := hlevel.abreast.step_gate (rfl : _ = Gate.refresh.entry) rfl
  refine .of_serves hstep (fun _ => rfl) fun hfits => ?_
  exact hlevel.abreast.diverts hstep hstep' (fun _ => rfl)
    (hlevel.abreast.asked.serve_refresh hp hhead hm hn (hlevel.abreast.fit hstep' hfits))

theorem at_breakpoint
    (hhead : s.cpu.store.code.HeadAt p.left .breakpoint opened checked none)
    (hhead' : t.cpu.store.code.HeadAt p.right .breakpoint opened checked none) :
    C.Goes w T P s :=
  h.loads hs ht hhead.first hhead'.first fun _ _ hm hn hloaded =>
    hloaded.calls rfl rfl hhead.second hhead'.second fun hinside => stops hp hinside hhead hm hn

theorem at_head : C.Goes w T P s := by
  obtain ⟨kind, opened, checked, ⟨hhead, hhead'⟩ | ⟨q, hq, hhead, hhead'⟩⟩ :=
    (h.twins.linked.pairs p hp).heads
  · cases kind with
    | boundary => exact h.at_boundary hp hs ht hhead hhead'
    | redirected => exact h.at_redirected hp hs ht hhead hhead'
    | breakpoint => exact h.at_breakpoint hp hs ht hhead hhead'
  · exact h.jumps (step_jumpsTo h.twins.room.1 hs hhead.first)
      (step_jumpsTo h.twins.room.2 ht hhead'.first) fun hlevel =>
        hlevel.meets_head hq rfl rfl

end Level

theorem returned_back {service : Service} {u : Bool} {m n : Machine}
    (h : C.Level w T P g (s.back service a) (t.back service b))
    (hprivileged : u = true → service.privileged = false)
    (hexceptions : (s.served service).cpu.counters.exceptions = s.asked.counters.exceptions)
    (hm : s.machine.unstacked = m) :
    Returned C.left C.right u g m n (s.back service a).machine (t.back service b).machine where
  alike := h.alike
  left := by
    have hspill := (s.served service).cpu.spill_loadHost (s.answer service)
    rw [show (s.served service).cpu.config.registerAssignment = C.left from
      h.twins.assignments.1] at hspill
    exact hspill
  right := by
    have hspill := (t.served service).cpu.spill_loadHost (t.answer service)
    rw [show (t.served service).cpu.config.registerAssignment = C.right from
      h.twins.assignments.2] at hspill
    exact hspill
  scratch := by
    intro r hfirst hcycles
    rw [← hm]
    exact (Cpu.loadHost_scratch _ _ hcycles).trans (answer_scratch service hfirst)
  kept := by
    intro hu k hk
    have hkept := (s.asked.confined_serve s.machine.state (hprivileged hu)).kept hexceptions k hk
    have hspill : s.asked.registers.byteAt k = s.machine.file.byteAt k :=
      s.cpu.config.registerAssignment.spill_kept s.machine hk
    rw [← hm]
    exact hkept.trans hspill

end Coupling

theorem Session.caller_calling (r : Session) (hn : n + 1 < 2 ^ 32) (gate : Gate) :
    r.cpu.caller? (r.calling n gate).machine.state = r.cpu.store.entries.origin? n.toUInt32 := by
  have hback : (n + 1).toUInt32 ≠ 0 := by
    intro hzero
    have hnat : (n + 1).toUInt32.toNat = n + 1 := Nat.mod_eq_of_lt hn
    rw [hzero] at hnat
    exact absurd hnat.symm (Nat.succ_ne_zero n)
  have hsite : (n + 1).toUInt32 - 1 = n.toUInt32 := by
    rw [← toUInt32_succ, UInt32.add_sub_cancel]
  change (if (n + 1).toUInt32 = 0 then none
    else r.cpu.store.entries.origin? ((n + 1).toUInt32 - 1)) = _
  rw [if_neg hback, hsite]

theorem Fragment.gotos_links {f : Fragment} (h : f[i]? = some (.goto x)) (position : Nat) :
    (gotos position f)[f.links i]? = some (position + i, x) := by
  induction f generalizing i position with
  | nil => exact absurd h (by simp)
  | cons item rest ih =>
    cases i with
    | zero =>
      obtain rfl : item = .goto x := by simpa using h
      rfl
    | succ i =>
      have hrest := ih (i := i) (by simpa using h) (position + 1)
      rw [show position + 1 + i = position + (i + 1) by omega] at hrest
      cases item with
      | op o => exact hrest
      | call gate => exact hrest
      | goto y =>
        have hlinks : Fragment.links (.goto y :: rest) (i + 1) = Fragment.links rest i + 1 := rfl
        rw [hlinks]
        exact hrest

namespace LinkedPair

variable {config : Config} {a b : RegisterAssignment} {s t : CodeStore}

theorem jump (h : LinkedPair config a b P p s t)
    (hi : (p.unit.body (config.assign a))[i]? = some (.goto x))
    (hj : (p.unit.body (config.assign b))[j]? = some (.goto x))
    (hlinks : (p.unit.body (config.assign a)).links i = (p.unit.body (config.assign b)).links j) :
    ∃ q, P q ∧ s.code.JumpsTo (p.left + 4 + i) q.left ∧ t.code.JumpsTo (p.right + 4 + j) q.right := by
  have hleft := Fragment.gotos_links hi (p.left + 4)
  have hright := Fragment.gotos_links hj (p.right + 4)
  rw [← hlinks] at hright
  exact h.jumps ((p.left + 4 + i, x), (p.right + 4 + j, x))
    (List.mem_of_getElem? (List.getElem?_zip_eq_some.mpr ⟨hleft, hright⟩))

theorem caller (h : LinkedPair config a b P p s t)
    (hi : (p.unit.body (config.assign a))[i]? = some (.call gate))
    (hj : (p.unit.body (config.assign b))[j]? = some (.call gate)) :
    t.entries.origin? (p.right + 4 + j).toUInt32 = s.entries.origin? (p.left + 4 + i).toUInt32 := by
  obtain ⟨hlt, -⟩ := List.getElem?_eq_some_iff.mp hi
  obtain ⟨hlt', -⟩ := List.getElem?_eq_some_iff.mp hj
  cases hunit : p.unit with
  | instruction inst =>
    rw [hunit] at hlt hlt'
    rw [h.originLeft inst hunit i hlt, h.originRight inst hunit j hlt']
  | missing address =>
    rw [hunit] at hi
    rcases i with _ | _ | i
    · exact absurd hi (by simp [CodeUnit.body, Codegen.load, Codegen.mov])
    · exact absurd hi (by simp [CodeUnit.body, Codegen.load, Codegen.mov, Codegen.service])
    · exact absurd hi (by simp [CodeUnit.body, Codegen.load, Codegen.mov, Codegen.service])

end LinkedPair

namespace Coupling

variable {C : Coupling} {w : Watch} {g g' : Grade}

theorem caller_same (htwins : C.Twins P s.cpu t.cpu) (hp : P p)
    (hi : (C.leftCode p.unit)[i]? = some (.call gate))
    (hj : (C.rightCode p.unit)[j]? = some (.call gate)) :
    t.cpu.caller? (t.calling (p.right + 4 + j) gate).machine.state =
      s.cpu.caller? (s.calling (p.left + 4 + i) gate).machine.state := by
  have hpair := htwins.linked.pairs p hp
  have hbound {code : CodeBuffer} {n : Nat} (hroom : code.ops.size < 2 ^ 31)
      (hholds : code.Holds n (.call gate)) : n + 1 < 2 ^ 32 := by
    obtain ⟨hn, -⟩ := Array.getElem?_eq_some_iff.mp hholds
    omega
  rw [s.caller_calling (hbound htwins.room.1 (hpair.bodyLeft i _ hi)),
    t.caller_calling (hbound htwins.room.2 (hpair.bodyRight j _ hj))]
  exact hpair.caller hi hj

theorem caller_none (halike : Alike g C.left C.right s.machine t.machine) :
    t.cpu.caller? t.machine.state = s.cpu.caller? s.machine.state := by
  rw [Cpu.caller?, Cpu.caller?, State.caller?, State.caller?, halike.left.stack,
    halike.right.stack]
  rfl

theorem Meets.of_returned {service : Service} (hp : P p)
    (h : C.Level w T P g (s.back service a) (t.back service b)) (hs : a = (p.left + 4 + i).toUInt32)
    (ht : b = (p.right + 4 + j).toUInt32)
    (hsame : (s.served service).cpu.counters.exceptions = s.asked.counters.exceptions)
    (hpaced : C.InPace w (w.on s.cpu) p.unit i (s.back service a).machine j (t.back service b).machine) :
    C.Meets w P (s.back service a) (t.back service b) := by
  have hon : w.on s.cpu = w.on (s.served service).cpu := by
    rw [Watch.on, Watch.on, hsame]
    rfl
  rw [hon] at hpaced
  exact .body h.twins h.sees hp h.alike.left hs ht hpaced

namespace Level

variable (hp : P p) (hs : s.site = (p.left + 4 + i).toUInt32)
  (ht : t.site = (p.right + 4 + j).toUInt32)
include hp hs ht

theorem asks (h : C.Level w T P g s t) {item : Item}
    (hi : (C.leftCode p.unit)[i]? = some item)
    (hj : (C.rightCode p.unit)[j]? = some item)
    (hlinks : (C.leftCode p.unit).links i =
      (C.rightCode p.unit).links j)
    (hask : Asks (w.on s.cpu) item g g')
    (hnext : ∀ m n, Returned C.left C.right (w.on s.cpu) g' s.machine t.machine m n →
      C.InPace w (w.on s.cpu) p.unit (i + 1) m (j + 1) n) : C.Goes w T P s := by
  have hpair := h.twins.linked.pairs p hp
  obtain ⟨hroom, hroom'⟩ := h.twins.room
  cases hask with
  | @access gate hgate =>
    obtain ⟨hreturns, haccess⟩ := Gate.of_isAccess hgate
    refine h.serving hs ht hreturns (hpair.bodyLeft i _ hi) (hpair.bodyRight j _ hj) ?_ ?_
    · intro hinside hfit
      exact hinside.asked.serve_back (.inl haccess)
        (hinside.sameArguments (fun _ => rfl) (caller_same h.twins hp hi hj)) fun _ => hfit
    · intro hlevel ho
      have hsame := congrArg (EventCounters.exceptions ∘ Cpu.counters)
        (Cpu.outer_serve _ _ (.inl haccess) ho)
      have hreturned := returned_back (u := w.on s.cpu) (n := t.machine) hlevel
        (fun _ => gate.not_privileged) hsame (calling_machine h.alike.left.stack _ gate)
      exact .meet hlevel.path (.of_returned hp hlevel rfl rfl hsame (hnext _ _ hreturned))
  | @service _ service hservice hg hu =>
    have hstep := step_service hroom hs (hpair.bodyLeft i _ hi)
    have hstep' := step_service hroom' ht (hpair.bodyRight j _ hj)
    refine .of_serves hstep hu fun hfits => ?_
    rcases h.abreast.asked.serve_back (.inr hservice)
      (h.abreast.sameArguments hg (caller_none h.alike)) (fun _ => h.abreast.fit hstep' hfits) with
      ⟨htwins, ho, ho', hresult⟩ | hdiverts
    · have hback := hstep.trans (serve_back ho h.alike.left.stack)
      have hback' := hstep'.trans (serve_back ho' h.alike.right.stack)
      have hsame := congrArg (EventCounters.exceptions ∘ Cpu.counters)
        (Cpu.outer_serve _ _ (.inr hservice) ho)
      have hlevel := h.abreast.back (a := s.site + 1) htwins hu (h.path.tail hback') h.alike.reached
        (h.abreast.answer_first hresult)
      have hreturned := returned_back (n := t.machine) hlevel hu hsame
        (unstacked_of_stack h.alike.left.stack)
      refine .of_next (.serves hstep hu) hback fun _ => ⟨P, .refl _, hlevel.holds, ?_⟩
      exact .meet hlevel.path (.of_returned hp hlevel
        (by rw [hs, toUInt32_succ, Nat.add_assoc]) (by rw [ht, toUInt32_succ, Nat.add_assoc])
        hsame (hnext _ _ hreturned))
    · exact h.abreast.diverts hstep hstep' hu hdiverts
  | @leave _ service hservice hg hu =>
    have hstep := step_service hroom hs (hpair.bodyLeft i _ hi)
    have hstep' := step_service hroom' ht (hpair.bodyRight j _ hj)
    refine .of_serves hstep hu fun hfits => h.abreast.diverts hstep hstep' hu ?_
    exact h.abreast.asked.serve_away hservice (h.abreast.sameArguments hg (caller_none h.alike))
      (h.abreast.fit hstep' hfits)
  | goto =>
    obtain ⟨q, hq, hjump, hjump'⟩ := hpair.jump hi hj hlinks
    exact h.jumps (step_jumpsTo hroom hs hjump) (step_jumpsTo hroom' ht hjump')
      fun hlevel => hlevel.meets_head hq rfl rfl

theorem locates (h : C.Level w T P .tight s t)
    (hstands : Codegen.jumpComputed.StandsAt (C.leftCode p.unit) i)
    (hstands' : Codegen.jumpComputed.StandsAt (C.rightCode p.unit) j) :
    C.Goes w T P s := by
  have hpair := h.twins.linked.pairs p hp
  have hi : (C.leftCode p.unit)[i]? = some (.call .locate) :=
    hstands.getElem? (i := 0) rfl
  have hj : (C.rightCode p.unit)[j]? = some (.call .locate) :=
    hstands'.getElem? (i := 0) rfl
  refine h.calls hs ht (hpair.bodyLeft i _ hi) (hpair.bodyRight j _ hj) fun hinside => ?_
  refine hinside.returns (rfl : Gate.locate.returns = true) rfl rfl rfl rfl fun hfit => ?_
  obtain ⟨P', hadds, htwins, ⟨q, hq, ho, ho', hr, hr'⟩ | ⟨e, he, ho, ho'⟩⟩ :=
    hinside.asked.serve_locate (hinside.sameArguments (fun _ => rfl) (caller_same h.twins hp hi hj))
      hfit
  · refine .inl ⟨P', hadds, htwins, ho, ho', fun hpath => Goes.leads ?_⟩
    have hpair' := htwins.linked.pairs p (hadds.keeps p hp)
    have hfound {r : Session} {k : Nat} {native : UInt32} (site : CodePtr)
        (h : ((r.calling k .locate).served .locate).result = some native) :
        ((r.calling k .locate).back .locate site).machine.state.reg scratch1 = native :=
      (Cpu.loadHost_scratch (s := .first) _ _ nofun).trans (answer_first_some h)
    have hjump := step_jumpReg (s := (s.calling (p.left + 4 + i) .locate).back .locate _)
      htwins.room.1 rfl (hpair'.bodyLeft (i + 1) _ (hstands.getElem? (i := 1) rfl))
    have hjump' := step_jumpReg (s := (t.calling (p.right + 4 + j) .locate).back .locate _)
      htwins.room.2 rfl (hpair'.bodyRight (j + 1) _ (hstands'.getElem? (i := 1) rfl))
    rw [hfound _ hr] at hjump
    rw [hfound _ hr'] at hjump'
    exact jumps (hinside.back (k := .loose) htwins (fun _ => rfl) hpath nofun nofun) hjump hjump'
      fun hlevel => hlevel.meets_head hq rfl rfl
  · exact .inr ⟨P', hadds, htwins, .inr (.inr ⟨e, he, ho, ho'⟩)⟩

theorem at_end (h : C.Level w T P .loose s t) (hfalls : p.unit.falls = true)
    (hi : i = (C.leftCode p.unit).length)
    (hj : j = (C.rightCode p.unit).length) : C.Goes w T P s := by
  obtain ⟨hroom, hroom'⟩ := h.twins.room
  obtain ⟨q, hq, harrives, harrives'⟩ := (h.twins.linked.pairs p hp).tail hfalls
  rw [← hi] at harrives
  rw [← hj] at harrives'
  have hreached : ReflTransGen Advances T (t.goto q.right.toUInt32) := by
    rcases harrives' with heq | hjump'
    · rw [← heq, ← ht]
      exact h.path
    · exact h.path.tail (step_jumpsTo hroom' ht hjump')
  have hlevel : C.Level w T P .loose s (t.goto q.right.toUInt32) :=
    ⟨h.right, hreached, h.twins, h.sees, h.alike⟩
  rcases harrives with heq | hjump
  · rw [heq] at hs
    exact hlevel.at_head hq hs rfl
  · exact .of_next (.goto (step_jumpsTo hroom hs hjump))
      (step_jumpsTo hroom hs hjump) fun _ =>
        ⟨P, .refl _, ⟨⟨_, h.twins⟩, h.sees, .inl h.alike.left⟩,
          .meet hreached (.head h.twins h.sees hq rfl rfl h.alike)⟩

end Level

theorem Goes.of_body (hright : C.Roomy T) (hpath : ReflTransGen Advances T t)
    (htwins : C.Twins P s.cpu t.cpu)
    (hsees : w.Sees s.cpu s.machine.file) (hp : P p) (hs : s.site = (p.left + 4 + i).toUInt32)
    (ht : t.site = (p.right + 4 + j).toUInt32) (hready : s.machine.Ready)
    (hpaced : C.InPace w (w.on s.cpu) p.unit i s.machine j t.machine) : C.Goes w T P s := by
  obtain ⟨hroom, hroom'⟩ := htwins.room
  have hpair := htwins.linked.pairs p hp
  -- the right session first comes to where it can answer
  have hcatch {j' : Nat} {n : Machine} (hmoves : ReflTransGen
      (C.rightCode p.unit).Moves (j, t.machine) (j', n)) :
      ReflTransGen Advances T (t.moved n (p.right + 4 + j').toUInt32) :=
    hpath.trans (advances_path hroom' hpair.bodyRight ht hmoves)
  have hlevel {g : Grade} {j' : Nat} {n : Machine} (hmoves : ReflTransGen
      (C.rightCode p.unit).Moves (j, t.machine) (j', n))
      (halike : Alike g C.left C.right s.machine n) :
      C.Level w T P g s (t.moved n (p.right + 4 + j').toUInt32) :=
    ⟨hright, hcatch hmoves, htwins, hsees, halike⟩
  rcases Nat.lt_or_eq_of_le (Paced.closed.bound hpaced) with hlt | hlength
  · cases Paced.closed.answered hpaced hlt with
    | moves left kept right next =>
      have hstep := step_moves hroom hpair.bodyLeft hs left
      refine .of_next (.moves hstep kept) hstep fun _ =>
        ⟨P, .refl _, ⟨⟨_, htwins⟩, hsees.confined kept, .inl (kept.ready hready)⟩, ?_⟩
      exact .meet (hcatch right)
        (.body htwins (hsees.confined kept) hp (kept.ready hready) rfl rfl next)
    | asks left path right aligned alike ask next =>
      exact (hlevel path alike).asks hp hs rfl left right aligned ask next
    | jumps left path right alike => exact (hlevel path alike).locates hp hs rfl left right
  · rw [hlength] at hpaced
    obtain ⟨n, path, hwithin⟩ := Paced.closed.leaves hpaced
    by_cases hfalls : p.unit.falls = true
    · rw [if_pos hfalls] at hwithin
      exact (hlevel path hwithin.alike).at_end hp hs rfl hfalls hlength rfl
    · rw [if_neg hfalls] at hwithin
      exact absurd hwithin (Within.not_stop _ _)

theorem Meets.holds (h : C.Meets w P s t) : C.Holds w P s := by
  cases h with
  | head htwins hsees _ _ _ halike => exact ⟨⟨_, htwins⟩, hsees, .inl halike.left⟩
  | body htwins hsees _ hready _ _ _ => exact ⟨⟨_, htwins⟩, hsees, .inl hready⟩

theorem Meets.goes (hright : C.Roomy T) (hpath : ReflTransGen Advances T t)
    (h : C.Meets w P s t) : C.Goes w T P s := by
  cases h with
  | head htwins hsees hp hs ht halike =>
    exact Level.at_head hp ⟨hright, hpath, htwins, hsees, halike⟩ hs ht
  | body htwins hsees hp hready hs ht hpaced =>
    exact .of_body hright hpath htwins hsees hp hs ht hready hpaced

theorem Leads.step (hright : C.Roomy T) (h : C.Leads w T P s) : C.Goes w T P s := by
  cases h with
  | meet path meets => exact meets.goes hright path
  | next plain step adds holds rest => exact .of_next plain step fun _ => ⟨_, adds, holds, rest⟩
  | done plain step adds finishes => exact .of_done plain step adds finishes
  | full plain large => exact .of_not_fits plain large

end Coupling

end Dynarec68k
