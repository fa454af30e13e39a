import Dynarec68k.Proofs.HeadSteps
import Dynarec68k.Proofs.InstructionRuns

namespace Dynarec68k

open Host Relation

variable {first i j length n : Nat} {service : Service} {s t u : Session}

theorem Host.Service.not_direct (h : service.isAccess = true ∨ service = .locate) :
    service.comesBack = false ∧ service.goesAway = false := by
  rcases h with h | rfl
  · cases service <;> first | exact ⟨rfl, rfl⟩ | cases h
  · exact ⟨rfl, rfl⟩

theorem Fragment.Moves.item {f : Fragment} {i j : Nat} {m : Machine}
    (h : f.Moves (i, m) (j, m)) :
    ∃ item, f[i]? = some item ∧ ∀ service, item ≠ .op (.service service) := by
  cases h with
  | data hitem hdata => exact ⟨_, hitem, fun _ heq => by cases heq; cases hdata⟩
  | skip hitem => exact ⟨_, hitem, fun _ heq => by cases heq⟩
  | taken hitem => exact ⟨_, hitem, fun _ heq => by cases heq⟩
  | passed hitem => exact ⟨_, hitem, fun _ heq => by cases heq⟩
  | back hitem => exact ⟨_, hitem, fun _ heq => by cases heq⟩

namespace Sole

variable {config : Config} {map : MemoryMap} {view : GuestView} {P : Pair → Prop} {s : CodeStore}
  {p q : Pair}

variable (h : Sole config map view P s)
include h

theorem above (hp : P p) : Gate.code.length ≤ p.left := by
  obtain ⟨-, pieces, hmatched, rfl⟩ := h
  obtain ⟨piece, hpiece, rfl⟩ := List.mem_map.mp hp
  exact hmatched.left.above piece hpiece

theorem extent (hp : P p) :
    p.left + 4 + (p.unit.body config).length ≤ s.code.ops.size ∧
      ∀ q, P q → ∀ i < (p.unit.body config).length, q.left ≠ p.left + 4 + i := by
  obtain ⟨hfixed, pieces, hmatched, rfl⟩ := h
  obtain ⟨piece, hpiece, rfl⟩ := List.mem_map.mp hp
  have hconfig : view.config.assign config.registerAssignment = config := by
    rw [hfixed.config]
    rfl
  have hleft := hmatched.left
  rw [hconfig] at hleft
  have hrest : (piece.unit.body config).length ≤ (piece.rest config).length := by
    rw [Piece.rest, List.length_append]
    omega
  refine ⟨?_, fun q hq i hi => ?_⟩
  · have hwithin := hleft.within piece hpiece
    unfold Piece.size at hwithin
    change piece.left + 4 + (piece.unit.body config).length ≤ _
    omega
  · obtain ⟨other, hother, rfl⟩ := List.mem_map.mp hq
    have hbehind := hleft.behind_head hpiece hother (Nat.lt_of_lt_of_le hi hrest)
    change other.left ≠ piece.left + 4 + i
    omega

theorem place_body (hp : P p) (hi : i ≤ (p.unit.body config).length) :
    (p.left + 4 + i).toUInt32.toNat = p.left + 4 + i := by
  have hextent := (h.extent hp).1
  have hroom : s.code.ops.size < 2 ^ 31 := ((matching config _ _ map).linked h).roomLeft
  exact UInt32.toNat_ofNat_of_lt' (show _ < 2 ^ 32 by omega)

theorem not_gate (hp : P p) {site : CodePtr} (hsite : site = (p.left + 4 + i).toUInt32)
    (hi : i ≤ (p.unit.body config).length) : ¬site.toNat < Gate.code.length := by
  have habove := h.above hp
  rw [hsite, h.place_body hp hi]
  omega

end Sole

namespace Session

/-- Where the code stands that a session runs: its site, or the place of the call that is open. -/
def position (u : Session) : CodePtr :=
  match u.machine.state.stack with
  | [] => u.site
  | back :: _ => back - 1

/-- In a stretch of code, or in a gate that was called from there. -/
def Inside (first length : Nat) (u : Session) : Prop :=
  first ≤ u.position.toNat ∧ u.position.toNat < first + length

theorem position_of_stack (h : u.machine.state.stack = []) : u.position = u.site := by
  rw [position, h]

theorem position_of_call {back : CodePtr} (h : u.machine.state.stack = [back]) :
    u.position = back - 1 := by
  rw [position, h]

theorem step_data_error (hroom : s.cpu.store.code.ops.size < 2 ^ 31) (hsite : s.site = n.toUInt32)
    {o : Host.Op} (h : s.cpu.store.code.ops[n]? = some o) (hdata : o.isData = true)
    {reason : FaultReason} (hperform : s.machine.perform o = .error reason) :
    s.step =
      .done (.error (.hostFault s.site reason)) { s.cpu with registers := s.machine.file } := by
  have hop := op?_of_room hroom h
  cases o <;> first | exact absurd hdata Bool.false_ne_true | skip
  all_goals
    simp only [step, hsite, hop, hperform]
    rw [fault, hsite]

/-- Steps in a stretch of code and in the gates that it calls. -/
def Within (first length : Nat) : Session → Session → Prop :=
  ReflTransGen fun u v => u.Inside first length ∧ u.Advances v

theorem Within.advances (h : Within first length s t) : ReflTransGen Advances s t :=
  ReflTransGen.mono (fun _ _ hstep => hstep.2) _ _ h

/-- In the code of a unit, or in a gate that was called from there, with so many cycles spent since
another session and nothing changed but what code can change. -/
structure Amid {config : Config} {map : MemoryMap} {allowed : Operation → Prop}
    (U : Upkeep config map allowed) (u s : Session) (P : Pair → Prop) (p : Pair)
    (spent i : Nat) : Prop where
  tracks : (alone U).Tracks (.off .zero) P (.running u)
  member : P p
  position : u.position = (p.left + 4 + i).toUInt32
  clock : u.asked.cycle = s.asked.cycle + spent.toUInt32
  outer : u.cpu.outer = s.cpu.outer

/-- What is known where code asks for a service: it finds what it needs, and through a gate it is
also known who asks. -/
structure Asking (config : Config) (needs : Needs) (p : Pair) (service : Service) (u : Session) :
    Prop where
  config_eq : u.cpu.config = config
  finds : ∃ spent, needs.service service spent u.machine.unstacked u.cpu.memory ∨
    needs.leave service spent u.machine.unstacked u.cpu.memory
  called : service.isAccess = true ∨ service = .locate → ∀ inst, p.unit = .instruction inst →
    u.asked.caller? u.machine.state = some inst.address
  direct : service.goesAway = true → u.asked.caller? u.machine.state = none

/-- How an instruction begins. -/
def outset (config : Config) (inst : Instruction) (s : Session) : Outset :=
  ⟨config, inst, s.asked.registers, s.cpu.memory⟩

theorem Asking.found {config : Config} {b : Outset} {p : Pair}
    (h : u.Asking config b.needs p service) : b.Finds service u.machine.unstacked u.cpu.memory := by
  obtain ⟨spent, ⟨-, hfinds⟩ | ⟨-, -, hfinds⟩⟩ := h.finds
  · exact hfinds
  · exact hfinds

/-- A service is asked for by the code of a unit, or in the gate that it calls. -/
structure Requests {config : Config} {map : MemoryMap} {allowed : Operation → Prop}
    (U : Upkeep config map allowed) (u s : Session) (needs : Needs) (P : Pair → Prop) (p : Pair)
    (service : Service) (spent i : Nat) : Prop where
  amid : u.Amid U s P p spent i
  op : u.cpu.store.code.op? u.site = some (.service service)
  asking : u.Asking config needs p service
  back : u.machine.state.stack = [] ∨ ∃ gate : Gate, gate.returns = true ∧ u.site = gate.entry ∧
    u.machine.state.stack = [(p.left + 4 + (i + 1)).toUInt32]

/-- A step in the code of a unit, which may ask for a service. -/
structure Visits (config : Config) (needs : Needs) (p : Pair) (u v : Session) : Prop where
  inside : u.Inside (p.left + 4) (p.unit.body config).length
  asking : ∀ service, u.cpu.store.code.op? u.site = some (.service service) →
    u.Asking config needs p service
  step : u.step = .next v

/-- A step that asks for no service. -/
def Quiet (u v : Session) : Prop :=
  u.step = .next v ∧ ∀ service, u.cpu.store.code.op? u.site ≠ some (.service service)

/-- Where the code of a unit is left, or a position of it is come to. -/
inductive Exits {config : Config} {map : MemoryMap} {allowed : Operation → Prop}
    (U : Upkeep config map allowed) (u s : Session) (needs : Needs) (Post : Assertion) (p : Pair)
    (last : Nat) : Prop where
  | falls {P : Pair → Prop} {spent : Nat} (amid : u.Amid U s P p spent last)
      (stack : u.machine.state.stack = []) (post : Post spent u.machine u.cpu.memory)
  | goes {P : Pair → Prop} {spent i : Nat} {x : UInt32} (amid : u.Amid U s P p spent i)
      (stack : u.machine.state.stack = []) (item : (p.unit.body config)[i]? = some (.goto x))
      (needed : needs.target x spent u.machine u.cpu.memory)
  /-- A service leads elsewhere, or ends the run. -/
  | serves {P : Pair → Prop} {spent i : Nat} {service : Service} (amid : u.Amid U s P p spent i)
      (op : u.cpu.store.code.op? u.site = some (.service service))
      (asking : u.Asking config needs p service)
      (why : service.goesAway = true ∧
          needs.leave service spent u.machine.unstacked u.cpu.memory ∨
        (service.isAccess = true ∨ service.comesBack = true) ∧
          (u.served service).outcome ≠ .proceed ∧
          needs.service service spent u.machine.unstacked u.cpu.memory)
  /-- A guest address is looked up, to jump to the code there. -/
  | locates {P : Pair → Prop} {spent i : Nat} (amid : u.Amid U s P p spent i)
      (asking : u.Asking config needs p .locate) (site : u.site = Gate.locate.entry)
      (stack : u.machine.state.stack = [(p.left + 4 + (i + 1)).toUInt32])
      (jump : (p.unit.body config)[i + 1]? = some (.op (.jumpReg Role.scratch1)))
      (needed : needs.leave .locate spent u.machine.unstacked u.cpu.memory)

section

variable {config : Config} {map : MemoryMap} {allowed : Operation → Prop}
  {U : Upkeep config map allowed} {v : Session} {P : Pair → Prop} {p : Pair}
  {spent : Nat} {needs : Needs} {Post : Assertion}

namespace Amid

/-- Where the code behind the head of a unit begins, wherever control came from. -/
theorem start (hsole : Sole config map s.cpu.view P s.cpu.store)
    (hinv : U.Inv s.cpu.view P s.cpu.store) (hp : P p) (hsite : s.site = (p.left + 4).toUInt32)
    (hready : s.machine.Ready) : s.Amid U s P p 0 0 := by
  have hmeets : (alone U).Meets (.off .zero) P s ⟨s.cpu, s.machine, (p.right + 4).toUInt32⟩ :=
    .of_alike (twins_alone hsole hinv) (Watch.sees_off _ _ _) hp hsite rfl
      ⟨by decide, rfl, fun _ _ => rfl, rfl, rfl, hready, hready⟩
  exact ⟨⟨hmeets.holds, _, .meet .refl hmeets⟩, hp, (position_of_stack hready.stack).trans hsite,
    (UInt32.add_zero _).symm, rfl⟩

section

variable (h : u.Amid U s P p spent i)
include h

theorem sole : Sole config map u.cpu.view P u.cpu.store :=
  h.tracks.sole.1

theorem room : u.cpu.store.code.ops.size < 2 ^ 31 :=
  ((matching config _ _ map).linked h.sole).roomLeft

theorem gates : ∀ (i : Nat) op, Gate.code[i]? = some op → u.cpu.store.code.ops[i]? = some op :=
  ((matching config _ _ map).linked h.sole).gatesLeft

theorem linked :
    LinkedPair config config.registerAssignment config.registerAssignment P p u.cpu.store
      u.cpu.store :=
  ((matching config _ _ map).linked h.sole).pairs p h.member

theorem placed : u.Placed (p.unit.body config) (p.left + 4) :=
  h.linked.bodyLeft

theorem twins : (alone U).Twins P u.asked u.asked :=
  twins_alone h.sole h.tracks.sole.2

theorem config_eq : u.cpu.config = config :=
  h.sole.fixed.config

theorem place (hj : j ≤ (p.unit.body config).length) :
    (p.left + 4 + j).toUInt32.toNat = p.left + 4 + j :=
  h.sole.place_body h.member hj

theorem inside (hi : i < (p.unit.body config).length) :
    u.Inside (p.left + 4) (p.unit.body config).length := by
  rw [Inside, h.position, h.place (Nat.le_of_lt hi)]
  omega

theorem site (hstack : u.machine.state.stack = []) : u.site = (p.left + 4 + i).toUInt32 :=
  (position_of_stack hstack).symm.trans h.position

theorem ready (hstack : u.machine.state.stack = []) (hi : i ≤ (p.unit.body config).length) :
    u.machine.Ready :=
  h.tracks.1.clear.resolve_right (h.sole.not_gate h.member (h.site hstack) hi)

end

theorem runs (h : s.Amid U s P p 0 0) (hstack : s.machine.state.stack = []) {inst : Instruction}
    (hinst : ∀ inst', p.unit = .instruction inst' → inst = inst') :
    Runs config (s.outset config inst).needs (p.unit.body config) (fun spent m _ => m.Ready ∧
      p.unit.falls = true ∧ spent ≤ (s.outset config inst).most ∧ (config.Ticks → 0 < spent)) 0 0
      s.machine s.cpu.memory := by
  have hintact : (s.outset config inst).Intact s.machine s.cpu.memory := by
    refine ⟨fun n => ?_, .refl _⟩
    rw [outset, ← h.config_eq]
    rfl
  exact h.linked.shaped.runs hinst (h.ready hstack (Nat.zero_le _)) hintact

section

variable (h : u.Amid U s P p spent i)
include h

theorem next (hstep : u.step = .next v) (hfits : v.cpu.Fits)
    (hposition : v.position = (p.left + 4 + j).toUInt32)
    (hclock : v.asked.cycle = s.asked.cycle + n.toUInt32) (houter : v.cpu.outer = u.cpu.outer) :
    ∃ P' : Pair → Prop, v.Amid U s P' p n j := by
  obtain ⟨P', hadds, htracks, -⟩ := h.tracks.step oneSided_alone (by rw [hstep]; exact hfits)
  rw [hstep] at hadds htracks
  exact ⟨P', htracks, hadds.keeps p h.member, hposition, hclock, houter.trans h.outer⟩

theorem service_item (hstack : u.machine.state.stack = []) {item : Item}
    (hitem : (p.unit.body config)[i]? = some item)
    (hop : u.cpu.store.code.op? u.site = some (.service service)) :
    item = .op (.service service) := by
  have hholds := h.placed i item hitem
  rw [h.site hstack] at hop
  cases item with
  | op o => exact congrArg Item.op (Option.some.inj ((op?_of_room h.room hholds).symm.trans hop))
  | call gate => cases (op?_of_room h.room hholds).symm.trans hop
  | goto target =>
    obtain ⟨rel, hrel⟩ := hholds
    cases (op?_of_room h.room hrel).symm.trans hop

theorem visits (hstack : u.machine.state.stack = []) {item : Item}
    (hitem : (p.unit.body config)[i]? = some item)
    (hother : ∀ service, item ≠ .op (.service service)) (hstep : u.step = .next v) :
    u.Visits config needs p v :=
  ⟨h.inside (List.getElem?_eq_some_iff.mp hitem).1,
    fun service hop => absurd (h.service_item hstack hitem hop) (hother service), hstep⟩

theorem caller (hi : i < (p.unit.body config).length)
    (hstack : u.machine.state.stack = [(p.left + 4 + (i + 1)).toUInt32]) {inst : Instruction}
    (hunit : p.unit = .instruction inst) : u.asked.caller? u.machine.state = some inst.address := by
  have hback : (p.left + 4 + (i + 1)).toUInt32 ≠ 0 := fun hzero => by
    have hplace := h.place (Nat.succ_le_of_lt hi)
    rw [hzero] at hplace
    simp at hplace
  rw [Cpu.caller?, State.caller?, hstack]
  simp only [List.head?_cons, if_neg hback]
  rw [← Nat.add_assoc, toUInt32_add, show (1 : Nat).toUInt32 = 1 from rfl, UInt32.add_sub_cancel]
  exact h.linked.originLeft inst hunit i (by rw [hunit] at hi; exact hi)

theorem data (hstack : u.machine.state.stack = []) {o : Host.Op}
    (hitem : (p.unit.body config)[i]? = some (.op o)) (hdata : o.isData = true) {c : Nat}
    (hclock : ∀ m', u.machine.perform o = .ok m' →
      m'.state.reg Role.cycles = u.machine.state.reg Role.cycles + c.toUInt32) :
    ∃ (m : Machine) (P' : Pair → Prop), u.machine.perform o = .ok m ∧
      u.step = .next (u.moved m (p.left + 4 + (i + 1)).toUInt32) ∧ m.state.stack = [] ∧
      (u.moved m (p.left + 4 + (i + 1)).toUInt32).Amid U s P' p (spent + c) (i + 1) := by
  cases hperform : u.machine.perform o with
  | ok m =>
    have hstep := step_data h.room (h.site hstack) (h.placed i _ hitem) hdata hperform
    have hstack' : m.state.stack = [] := (Machine.perform_stack hperform).trans hstack
    obtain ⟨P', hamid⟩ := h.next (n := spent + c) (j := i + 1) hstep h.room
      (position_of_stack hstack') (by
        change m.state.reg Role.cycles = _
        rw [hclock m hperform, toUInt32_add, ← UInt32.add_assoc, ← h.clock]
        rfl) rfl
    exact ⟨m, P', rfl, hstep, hstack', hamid⟩
  | error reason =>
    have hstep := step_data_error h.room (h.site hstack) (h.placed i _ hitem) hdata hperform
    obtain ⟨-, -, -, hbenign⟩ := h.tracks.step oneSided_alone (by rw [hstep]; exact h.room)
    cases hbenign _ _ hstep _ rfl

theorem calling (needs : Needs) (hstack : u.machine.state.stack = []) {gate : Gate}
    (hitem : (p.unit.body config)[i]? = some (.call gate)) :
    ∃ P' : Pair → Prop, u.Visits config needs p (u.calling (p.left + 4 + i) gate) ∧
      (u.calling (p.left + 4 + i) gate).Amid U s P' p spent i ∧
      (u.calling (p.left + 4 + i) gate).cpu.store.code.op? gate.entry =
        some (.service gate.service) := by
  have hstep : u.step = .next (u.calling (p.left + 4 + i) gate) := by
    rw [step_call h.room (h.site hstack) (h.placed i _ hitem), hstack]
    rfl
  have hposition : (u.calling (p.left + 4 + i) gate).position = (p.left + 4 + i).toUInt32 := by
    rw [position_of_call rfl, toUInt32_add, show (1 : Nat).toUInt32 = 1 from rfl,
      UInt32.add_sub_cancel]
  obtain ⟨P', hamid⟩ := h.next hstep h.room hposition h.clock rfl
  exact ⟨P', h.visits hstack hitem (fun _ => Item.noConfusion) hstep, hamid,
    op?_gate h.room h.gates gate⟩

theorem op_here (hstack : u.machine.state.stack = [])
    (hitem : (p.unit.body config)[i]? = some (.op (.service service))) :
    u.cpu.store.code.op? u.site = some (.service service) := by
  rw [h.site hstack]
  exact op?_of_room h.room (h.placed _ _ hitem)

theorem asking_here (hstack : u.machine.state.stack = [])
    (hdirect : ¬(service.isAccess = true ∨ service = .locate))
    (hfinds : needs.service service spent u.machine u.cpu.memory ∨
      needs.leave service spent u.machine u.cpu.memory) : u.Asking config needs p service := by
  refine ⟨h.config_eq, ⟨spent, ?_⟩, fun hcalled => absurd hcalled hdirect, fun _ => ?_⟩
  · rw [Machine.unstacked_of_stack hstack]
    exact hfinds
  · rw [Cpu.caller?, State.caller?, hstack]
    rfl

theorem requests (hstack : u.machine.state.stack = []) {item : Item}
    (hitem : (p.unit.body config)[i]? = some item) (hasks : item.Requests service)
    (hneeds : needs.service service spent u.machine u.cpu.memory) :
    service.GivesBack ∧ ∃ (P' : Pair → Prop) (v : Session),
      ReflTransGen (Visits config needs p) u v ∧ v.Requests U s needs P' p service spent i ∧
      v.machine.unstacked = u.machine ∧ v.cpu.memory = u.cpu.memory := by
  cases hasks with
  | @call gate hgate =>
    obtain ⟨hreturns, haccess⟩ := Gate.of_isAccess hgate
    obtain ⟨P', hvisits, hamid, hop⟩ := h.calling needs hstack hitem
    have hmachine := calling_machine hstack (p.left + 4 + i) gate
    have hi := (List.getElem?_eq_some_iff.mp hitem).1
    refine ⟨.inl haccess, P', _, .single hvisits, ⟨hamid, hop, ⟨hamid.config_eq, ⟨spent, .inl ?_⟩,
      fun _ inst hunit => hamid.caller hi rfl hunit, fun haway => ?_⟩,
      .inr ⟨gate, hreturns, rfl, rfl⟩⟩, hmachine, rfl⟩
    · rw [hmachine]
      exact hneeds
    · exact absurd (haway.symm.trans (Service.not_direct (.inl haccess)).2) (by decide)
  | service hs =>
    have hdirect (hcalled : service.isAccess = true ∨ service = .locate) : False :=
      absurd (hs.symm.trans (Service.not_direct hcalled).1) (by decide)
    exact ⟨.inr hs, P, u, .refl, ⟨h, h.op_here hstack hitem,
      h.asking_here hstack hdirect (.inl hneeds), .inl hstack⟩, Machine.unstacked_of_stack hstack, rfl⟩

theorem jumps {last : Nat} (hstack : u.machine.state.stack = [])
    (hstands : Codegen.jumpComputed.StandsAt (p.unit.body config) i)
    (hneeds : needs.leave .locate spent u.machine u.cpu.memory) :
    ∃ t, ReflTransGen (Visits config needs p) u t ∧ t.Exits U s needs Post p last := by
  have hitem := hstands.getElem? (i := 0) rfl
  obtain ⟨P', hvisits, hamid, -⟩ := h.calling needs hstack hitem
  have hmachine := calling_machine hstack (p.left + 4 + i) .locate
  rw [← hmachine] at hneeds
  refine ⟨_, .single hvisits, .locates hamid ⟨hamid.config_eq, ⟨spent, .inr hneeds⟩,
    fun _ inst hunit => hamid.caller (List.getElem?_eq_some_iff.mp hitem).1 rfl hunit,
    fun haway => ?_⟩ rfl rfl (hstands.getElem? (i := 1) rfl) hneeds⟩
  cases haway

end

theorem answered (hrequests : u.Requests U s needs P p service spent i)
    (hservice : service.GivesBack) (hi : i < (p.unit.body config).length)
    (houtcome : (u.served service).outcome = .proceed) :
    ∃ (clocks : Nat) (P' : Pair → Prop) (v : Session),
      ReflTransGen (Visits config needs p) u v ∧ v.machine.state.stack = [] ∧
      Answers config service clocks u.machine.unstacked u.cpu.memory v.machine v.cpu.memory ∧
      v.Amid U s P' p (spent + clocks * config.clockDivider.toNat) (i + 1) := by
  obtain ⟨h, hop, hasking, hback⟩ := hrequests
  obtain ⟨clocks, hanswers, hlater⟩ := answers hservice houtcome (p.left + 4 + (i + 1)).toUInt32
  have hfits : (u.served service).cpu.Fits := by
    rcases h.twins.serve_back (m := u.machine.state) (n := u.machine.state) hservice
      ⟨fun _ => rfl, rfl, rfl, rfl⟩ (absurd houtcome) with ⟨htwins, -⟩ | hdiverts
    · exact htwins.linked.roomLeft
    · obtain ⟨-, -, -, ⟨q, -, hjump, -⟩ | ⟨hleave, -⟩ | ⟨e, -, hfail, -⟩⟩ := hdiverts
      · cases houtcome.symm.trans hjump
      · cases houtcome.symm.trans hleave
      · cases houtcome.symm.trans hfail
  have houter : (u.served service).cpu.outer = u.cpu.outer :=
    u.asked.outer_serve _ hservice houtcome
  have hstep : u.step = u.serve service := by rw [step, hop]
  have hvisits {v : Session} (hnext : u.step = .next v) : u.Visits config needs p v :=
    ⟨h.inside hi, fun service' hop' => by cases hop.symm.trans hop'; exact hasking, hnext⟩
  have hclock {v : Session} (hv : v.asked = (u.served service).cpu) :
      v.asked.cycle = s.asked.cycle + (spent + clocks * config.clockDivider.toNat).toUInt32 := by
    have hproduct : (clocks * config.clockDivider.toNat).toUInt32 = config.cycles clocks := by
      rw [Config.cycles]
      exact (UInt32.ofNat_mul _ _).trans (congrArg _ UInt32.ofNat_toNat)
    have hcycle : (u.served service).cpu.cycle = u.asked.cycle + u.cpu.config.cycles clocks :=
      congrArg Schedule.cycle hlater
    rw [hv, hcycle, h.config_eq, toUInt32_add, hproduct, ← UInt32.add_assoc, h.clock]
  have hasked : (u.back service (p.left + 4 + (i + 1)).toUInt32).asked = (u.served service).cpu :=
    Cpu.storeHost_loadHost _ _
  rw [h.config_eq] at hanswers
  refine ⟨clocks, ?_⟩
  rcases hback with hstack | ⟨gate, hreturns, hsite, hstack⟩
  · have hnext := hstep.trans (serve_back houtcome hstack)
    rw [h.site hstack, toUInt32_succ, Nat.add_assoc] at hnext
    obtain ⟨P', hamid⟩ := h.next (j := i + 1) hnext hfits (position_of_stack rfl) (hclock hasked)
      houter
    exact ⟨P', _, .single (hvisits hnext), rfl, hanswers, hamid⟩
  · have hnext := hstep.trans (serve_proceed houtcome)
    have hreturn : ((u.after service).goto (u.site + 1)).asked = (u.served service).cpu :=
      Cpu.storeHost_loadHost _ _
    have hopen : ((u.after service).goto (u.site + 1)).machine.state.stack =
        [(p.left + 4 + (i + 1)).toUInt32] :=
      (Cpu.loadHost_stack _ _).trans ((answer_stack _).trans hstack)
    obtain ⟨P₁, hamid⟩ := h.next (j := i) hnext hfits
      ((position_of_call hopen).trans (by
        rw [← Nat.add_assoc, toUInt32_add, show (1 : Nat).toUInt32 = 1 from rfl,
          UInt32.add_sub_cancel])) (hclock hreturn) houter
    have hback := step_return hamid.room hamid.gates hreturns (congrArg (· + 1) hsite) hopen
    obtain ⟨P₂, hamid'⟩ := hamid.next (j := i + 1) hback hamid.room (position_of_stack rfl)
      (hclock hasked) rfl
    refine ⟨P₂, _, (ReflTransGen.single (hvisits hnext)).tail ⟨hamid.inside hi,
      fun service' hop' => ?_, hback⟩, rfl, hanswers, hamid'⟩
    have hret := op?_of_room hamid.room (hamid.gates _ _ (Gate.code_entry_succ hreturns))
    rw [← toUInt32_succ, show gate.entry.toNat.toUInt32 = gate.entry from UInt32.ofNat_toNat,
      ← hsite] at hret
    cases hret.symm.trans hop'

/-- Through a fragment of the code of a unit to its end, or out of it. -/
theorem course {f : Fragment} {k : Nat} (hf : f.StandsAt (p.unit.body config) k)
    (hruns : Runs config needs f Post spent i u.machine u.cpu.memory)
    (h : u.Amid U s P p spent (k + i)) (hstack : u.machine.state.stack = []) :
    ∃ t, ReflTransGen (Visits config needs p) u t ∧ t.Exits U s needs Post p (k + f.length) := by
  generalize hm : u.machine = m at hruns
  generalize hmemory : u.cpu.memory = memory at hruns
  induction hruns generalizing P u with
  | done hpost =>
    subst hm hmemory
    exact ⟨u, .refl, .falls h hstack hpost⟩
  | data hitem hdata hclock _ ih =>
    subst hm hmemory
    replace hitem := hf.getElem? hitem
    obtain ⟨m, P', hperform, hstep, hstack', hamid⟩ := h.data hstack hitem hdata hclock
    obtain ⟨t, hpath, hexits⟩ := ih m hperform (hamid.ready hstack'
      (List.getElem?_eq_some_iff.mp hitem).1) hamid hstack' rfl rfl
    refine ⟨t, .head (h.visits hstack hitem (fun _ heq => ?_) hstep) hpath, hexits⟩
    cases heq
    cases hdata
  | @turns spent i i' m memory hmoves _ ih =>
    subst hm hmemory
    have hstep := step_moves h.room h.placed (h.site hstack) (hf.moves hmoves)
    obtain ⟨P', hamid⟩ := h.next (j := k + i') hstep h.room (position_of_stack hstack) h.clock rfl
    obtain ⟨t, hpath, hexits⟩ := ih hamid hstack rfl rfl
    obtain ⟨item, hitem, hother⟩ := (hf.moves hmoves).item
    exact ⟨t, .head (h.visits hstack hitem hother hstep) hpath, hexits⟩
  | @asks spent i m memory item service hitem hasks hneeds _ ih =>
    subst hm hmemory
    replace hitem := hf.getElem? hitem
    obtain ⟨hservice, P', v, hpath, hrequests, hmachine, hmemory⟩ :=
      h.requests hstack hitem hasks hneeds
    by_cases houtcome : (v.served service).outcome = .proceed
    · obtain ⟨clocks, P₁, t, hpath₁, hstack₁, hanswers, hamid₁⟩ :=
        answered hrequests hservice (List.getElem?_eq_some_iff.mp hitem).1 houtcome
      rw [hmachine, hmemory] at hanswers
      obtain ⟨t', hpath₂, hexits⟩ := ih clocks _ _ hanswers hamid₁ hstack₁ rfl rfl
      exact ⟨t', (hpath.trans hpath₁).trans hpath₂, hexits⟩
    · refine ⟨v, hpath, .serves hrequests.amid hrequests.op hrequests.asking
        (.inr ⟨hservice, houtcome, ?_⟩)⟩
      rw [hmachine, hmemory]
      exact hneeds
  | @leaves spent i m memory service hitem hs hneeds =>
    subst hm hmemory
    have hdirect (hcalled : service.isAccess = true ∨ service = .locate) : False :=
      absurd (hs.symm.trans (Service.not_direct hcalled).2) (by decide)
    refine ⟨u, .refl, .serves h (h.op_here hstack (hf.getElem? hitem))
      (h.asking_here hstack hdirect (.inr hneeds)) (.inl ⟨hs, ?_⟩)⟩
    rw [Machine.unstacked_of_stack hstack]
    exact hneeds
  | goto hitem hneeds =>
    subst hm hmemory
    exact ⟨u, .refl, .goes h hstack (hf.getElem? hitem) hneeds⟩
  | jumps hstands hneeds =>
    subst hm hmemory
    exact h.jumps hstack (hstands.trans hf) hneeds

theorem located (h : u.Amid U s P p spent i) (hsite : u.site = Gate.locate.entry)
    (hstack : u.machine.state.stack = [(p.left + 4 + (i + 1)).toUInt32])
    (hitem : (p.unit.body config)[i + 1]? = some (.op (.jumpReg Role.scratch1)))
    (hfits : (u.served .locate).cpu.Fits) :
    (∃ e, (u.served .locate).outcome = .fail e) ∨
      ∃ (P' : Pair → Prop) (q : Pair), (alone U).Adds P P' (u.served .locate).cpu ∧
        (alone U).Twins P' (u.served .locate).cpu (u.served .locate).cpu ∧ P' q ∧
        ∃ v, u.step = .next v ∧ ReflTransGen Quiet v (u.back .locate q.left.toUInt32) := by
  obtain ⟨P', hadds, htwins, ⟨q, hq, houtcome, -, hresult, -⟩ | ⟨e, -, houtcome, -⟩⟩ :=
    h.twins.serve_locate (m := u.machine.state) (n := u.machine.state)
      ⟨fun _ => rfl, rfl, rfl, rfl⟩ (fit_alone hfits)
  · have hroom : (u.served .locate).cpu.store.code.ops.size < 2 ^ 31 := htwins.linked.roomLeft
    have hgates := htwins.linked.gatesLeft
    have hop : u.cpu.store.code.op? u.site = some (.service .locate) := by
      rw [hsite]
      exact op?_gate h.room h.gates .locate
    have hnext : u.step = u.serve .locate := by rw [step, hop]
    have hopen : ((u.after .locate).goto (u.site + 1)).machine.state.stack =
        [(p.left + 4 + (i + 1)).toUInt32] :=
      (Cpu.loadHost_stack _ _).trans ((answer_stack _).trans hstack)
    have hreturns : Gate.locate.returns = true := rfl
    have hback := step_return (s := (u.after .locate).goto (u.site + 1)) hroom hgates hreturns
      (congrArg (· + 1) hsite) hopen
    have hfirst : (u.back .locate (p.left + 4 + (i + 1)).toUInt32).machine.state.reg Role.scratch1 =
        q.left.toUInt32 :=
      (Cpu.loadHost_scratch (s := .first) _ _ (by decide)).trans (answer_first_some hresult)
    have hheld := (htwins.linked.pairs p (hadds.keeps p h.member)).bodyLeft (i + 1) _ hitem
    have hjump := step_jumpReg (s := u.back .locate (p.left + 4 + (i + 1)).toUInt32) hroom rfl hheld
    rw [hfirst] at hjump
    refine .inr ⟨P', q, hadds, htwins, hq, _, hnext.trans (serve_proceed houtcome),
      .head ⟨hback, fun service hop' => ?_⟩ (.single ⟨hjump, fun service hop' => ?_⟩)⟩
    · have hret : (u.served .locate).cpu.store.code.op? (u.site + 1) = some .ret := by
        rw [hsite]
        exact op?_of_room hroom (hgates _ _ (Gate.code_entry_succ hreturns))
      cases hret.symm.trans hop'
    · cases (op?_of_room hroom hheld).symm.trans hop'
  · exact .inl ⟨e, houtcome⟩

end Amid

/-- The head of a unit is not in the code of another one. -/
theorem outside (hsole : Sole config map v.cpu.view P v.cpu.store) (hp : P p) {q : Pair} (hq : P q)
    (hsite : v.site = q.left.toUInt32) (hstack : v.machine.state.stack = []) :
    ¬v.Inside (p.left + 4) (p.unit.body config).length := by
  rintro ⟨hlow, hhigh⟩
  rw [position_of_stack hstack, hsite, hsole.place hq] at hlow hhigh
  exact (hsole.extent hp).2 q hq (q.left - (p.left + 4)) (by omega) (by omega)

theorem Within.inside (h : Within first length u t) (hinside : t.Inside first length) :
    u.Inside first length := by
  rcases ReflTransGen.cases_head h with rfl | ⟨v, ⟨hfirst, -⟩, -⟩
  · exact hinside
  · exact hfirst

theorem Quiet.asks_nothing (h : ReflTransGen Quiet u v) (hout : ¬v.Inside first length)
    (hpath : Within first length u t) (hinside : t.Inside first length) :
    t.cpu.store.code.op? t.site ≠ some (.service service) := by
  induction h using ReflTransGen.head_induction_on with
  | refl => exact absurd (hpath.inside hinside) hout
  | head hquiet _ ih =>
    rcases ReflTransGen.cases_head hpath with rfl | ⟨x, ⟨-, hstep⟩, hrest⟩
    · exact hquiet.2 service
    · cases hquiet.1.symm.trans hstep
      exact ih hrest

theorem Amid.diverts (h : u.Amid U s P p spent i)
    (hdiverts : (alone U).Diverts P ((u.served service).outcome, (u.served service).cpu)
      ((u.served service).outcome, (u.served service).cpu)) (hserve : u.serve service = .next v) :
    ¬v.Inside (p.left + 4) (p.unit.body config).length := by
  obtain ⟨P', hadds, htwins, ⟨q, hq, houtcome, -⟩ | ⟨houtcome, -⟩ | ⟨e, -, houtcome, -⟩⟩ := hdiverts
  · rw [serve_jump houtcome] at hserve
    cases hserve
    exact outside (twins_alone_iff.mp ⟨_, htwins⟩).1 (hadds.keeps p h.member) hq rfl rfl
  · rw [serve_leave houtcome] at hserve
    cases hserve
  · rw [serve_fail houtcome] at hserve
    cases hserve

theorem Exits.asking (h : u.Exits U s needs Post p (p.unit.body config).length)
    (hpath : Within (p.left + 4) (p.unit.body config).length u t)
    (hinside : t.Inside (p.left + 4) (p.unit.body config).length) (hfits : t.cpu.Fits)
    (hop : t.cpu.store.code.op? t.site = some (.service service)) :
    t.Asking config needs p service := by
  have hserved {v : Session} {service : Service} (hstep : u.step = .next v)
      (hserve : u.step = u.serve service)
      (hrest : Within (p.left + 4) (p.unit.body config).length v t) :
      (u.served service).cpu.Fits := by
    refine (u.fits_served service).mp ?_
    rw [← hserve, hstep]
    exact (grows_advances hrest.advances).fits hfits
  have hfirst := hpath.inside hinside
  rcases ReflTransGen.cases_head hpath with rfl | ⟨v, ⟨-, hstep⟩, hrest⟩
  · cases h with
    | falls amid =>
      rw [Inside, amid.position, amid.place (Nat.le_refl _)] at hinside
      omega
    | goes amid stack item => cases amid.service_item stack item hop
    | serves _ op asking =>
      cases op.symm.trans hop
      exact asking
    | locates amid asking site =>
      have hgate := op?_gate amid.room amid.gates .locate
      rw [← site] at hgate
      cases hgate.symm.trans hop
      exact asking
  · have hstep : u.step = .next v := hstep
    have hleft (hout : ¬v.Inside (p.left + 4) (p.unit.body config).length) :
        t.Asking config needs p service :=
      absurd (Within.inside hrest hinside) hout
    cases h with
    | falls amid =>
      rw [Inside, amid.position, amid.place (Nat.le_refl _)] at hfirst
      omega
    | goes amid stack item =>
      obtain ⟨q, hq, hjump, -⟩ := amid.linked.jump item item rfl
      cases (step_jumpsTo amid.room (amid.site stack) hjump).symm.trans hstep
      exact hleft (outside amid.sole amid.member hq rfl stack)
    | @serves _ _ _ service amid op _ why =>
      have hserve : u.step = u.serve service := by rw [step, op]
      have hroom := hserved hstep hserve hrest
      refine hleft (amid.diverts ?_ (hserve.symm.trans hstep))
      rcases why with ⟨haway, -⟩ | ⟨hservice, houtcome, -⟩
      · exact amid.twins.serve_away (m := u.machine.state) (n := u.machine.state) haway
          ⟨fun _ => rfl, rfl, rfl, rfl⟩ (fit_alone hroom)
      · rcases amid.twins.serve_back (m := u.machine.state) (n := u.machine.state) hservice
          ⟨fun _ => rfl, rfl, rfl, rfl⟩ (fun _ => fit_alone hroom) with
          ⟨-, hproceed, -⟩ | hdiverts
        · exact absurd hproceed houtcome
        · exact hdiverts
    | locates amid _ site stack jump =>
      have hgate := op?_gate amid.room amid.gates .locate
      rw [← site] at hgate
      have hserve : u.step = u.serve .locate := by
        rw [step, hgate]
        rfl
      rcases amid.located site stack jump (hserved hstep hserve hrest) with
        ⟨e, hfail⟩ | ⟨P', q, hadds, htwins, hq, v', hstep', hquiet⟩
      · cases (hserve.trans (serve_fail hfail)).symm.trans hstep
      · cases hstep'.symm.trans hstep
        have hsole := (twins_alone_iff.mp ⟨_, htwins⟩).1
        exact absurd hop (Quiet.asks_nothing hquiet
          (outside hsole (hadds.keeps p amid.member) hq rfl rfl) hrest hinside)

/-- Wherever the code of a unit asks for a service, that is on its course. -/
theorem Amid.asking
    (hruns : Runs config needs (p.unit.body config) Post spent 0 u.machine u.cpu.memory)
    (h : u.Amid U s P p spent 0) (hstack : u.machine.state.stack = [])
    (hpath : Within (p.left + 4) (p.unit.body config).length u t)
    (hinside : t.Inside (p.left + 4) (p.unit.body config).length) (hfits : t.cpu.Fits)
    (hop : t.cpu.store.code.op? t.site = some (.service service)) :
    t.Asking config needs p service := by
  obtain ⟨last, hcourse, hexits⟩ := course (Fragment.standsAt_self _) hruns h hstack
  rw [Nat.zero_add] at hexits
  clear hruns h hstack
  induction hcourse using ReflTransGen.head_induction_on with
  | refl => exact hexits.asking hpath hinside hfits hop
  | head hvisits _ ih =>
    rcases ReflTransGen.cases_head hpath with rfl | ⟨v, ⟨-, hstep⟩, hrest⟩
    · exact hvisits.asking service hop
    · cases hvisits.step.symm.trans hstep
      exact ih hrest

end

end Session

end Dynarec68k
