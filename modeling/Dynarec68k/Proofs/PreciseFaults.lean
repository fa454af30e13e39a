import Dynarec68k.Proofs.FollowedCode

namespace Dynarec68k

open Host Relation Cpu

variable {past : List Moment} {allowed : Operation → Prop} {service : Service} {s t : Session}

theorem Reworked.fresh {view : GuestView} {ok : UInt32 → Prop} {P P' : Pair → Prop}
    {s s' : CodeStore} (h : Reworked view ok P s P' s') (p : Pair) (hp : P' p) :
    P p ∨ ∃ again, view.Fresh ok again p.unit := by
  cases h with
  | redirected => exact .inl hp
  | patched => exact .inl hp
  | grown hpairs hgrown =>
    rw [hpairs]
    exact (hgrown.added p hp).imp_right fun hfresh => ⟨_, hfresh.1⟩
  | refreshed hpairs hrefreshed =>
    obtain ⟨q, r, -, -, -, hgrown, -⟩ := hrefreshed
    rw [hpairs]
    exact (hgrown.added p hp).imp_right fun hfresh => ⟨_, hfresh.1⟩

/-- Code is made at addresses that stand for themselves. -/
def Steady.canonical {config : Config} {map : MemoryMap} (hsound : map.Sound) :
    Steady config map where
  ok x := map.canonical x = x
  Inv P _ := ∀ p, P p → map.canonical p.unit.address = p.unit.address
  stays h := h.stays_canonical
  even _ := hsound.canonical_canonical _
  opened _ _ _ := hsound.canonical_canonical _
  keeps _ _ h hreworked p hp := by
    rcases hreworked.fresh p hp with hold | ⟨again, hfresh⟩
    · exact h p hold
    · exact hfresh.1

section

variable {config : Config} {memory : MemoryMap} {cpu : Cpu}
 {n : CodePtr} {inst : Instruction}
  (hnew : cpu.IsNew config memory)
include hnew

theorem MadeFrom.canonical {m : Moment} (hhistory : Moment.History allowed (.idle cpu) m past)
    (hfits : m.cpu.Fits) (h : MadeFrom past n inst) :
    m.cpu.memory.canonical inst.address = inst.address := by
  let U := (Steady.canonical hnew.sound : Steady config memory).upkeep
  obtain ⟨P, hknown⟩ := hnew.chronicle U (fun _ hp => absurd hp not_false) (fun _ _ => True.intro)
    hhistory hfits
  obtain ⟨p, hp, -, hunit⟩ := hknown.made_iff.mp h
  obtain ⟨hsole, hcanonical⟩ := hknown.tracks.sole
  have hsame := hcanonical p hp
  rw [hunit] at hsame
  exact (hsole.fixed.canonical inst.address).trans hsame

end

namespace Session

/-- A run is in the code of an instruction, or in a gate that was called from there, ever since the
instruction began behind its head at `n`. -/
structure Executes (n : CodePtr) (inst : Instruction) (s t : Session) : Prop where
  first : s.site = n + 4
  path : Within (n.toNat + 4) (inst.body s.cpu.config).length s t
  inside : t.Inside (n.toNat + 4) (inst.body s.cpu.config).length

section

variable {config : Config} {memory : MemoryMap} {cpu : Cpu}
 {n : CodePtr} {inst : Instruction}

/-- Services that an instruction asks for find what they should, after any execution. -/
theorem Executes.asking (h : s.Executes n inst t) (hnew : cpu.IsNew config memory)
    (hhistory : Moment.History allowed (.idle cpu) (.running s) past) (hmade : MadeFrom past n inst)
    (hfits : t.cpu.Fits) (hop : t.cpu.store.code.op? t.site = some (.service service)) :
    ∃ p : Pair, p.unit = .instruction inst ∧
      t.Asking config (s.outset config inst).needs p service := by
  have hgrows : Grows s.cpu t.cpu := grows_advances h.path.advances
  have hat : s.At config inst 0 := ⟨memory, cpu, allowed, past, n, hnew, hhistory, hmade,
    h.first.trans (UInt32.add_zero _).symm, Nat.zero_le _, hgrows.fits hfits⟩
  obtain ⟨map, P, p, hunit, hready, hamid⟩ := hat.amid
  obtain ⟨hfirst, hpath, hinside⟩ := h
  obtain rfl : n = p.left.toUInt32 := by
    have hsite := hfirst.symm.trans (hamid.site hready.stack)
    rw [Nat.add_zero, toUInt32_add] at hsite
    exact (UInt32.add_left_inj 4).mp hsite
  rw [hamid.sole.place hamid.member, hamid.config_eq] at hpath hinside
  have hbody : p.unit.body config = inst.body config := by
    rw [hunit]
    rfl
  refine ⟨p, hunit, ?_⟩
  rw [← hbody] at hpath hinside
  exact Amid.asking (hamid.runs hready.stack fun inst' hinst' => by cases hunit.symm.trans hinst'; rfl)
    hamid hready.stack hpath hinside hfits hop

end

theorem step_cpu (hop : t.cpu.store.code.op? t.site = some (.service service))
    (houtcome : ∀ offset, (t.served service).outcome ≠ .resume offset) :
    t.step.cpu = (t.served service).cpu := by
  have hstep : t.step = t.serve service := by
    rw [step, hop]
  rw [hstep, serve_eq]
  cases hresult : (t.served service).outcome with
  | resume offset => exact absurd hresult (houtcome offset)
  | proceed => rfl
  | jump => rfl
  | leave => rfl
  | fail => rfl

end Session

namespace Session

instance (first length : Nat) : DecidablePred (Inside first length) := fun _ =>
  inferInstanceAs (Decidable (_ ∧ _))

theorem Within.of_after {first length count : Nat} (hroom : s.cpu.overfull = false)
    (h : ∀ k < count, (Step.after k (.next s)).ComesTo (Inside first length))
    (hlast : Step.after count (.next s) = .next t) : Within first length s t := by
  induction count generalizing s with
  | zero =>
    cases hlast
    exact .refl
  | succ count ih =>
    have hinside : s.Inside first length := h 0 (Nat.succ_pos count)
    have hrest : ∀ k < count, (Step.after k s.advance).ComesTo (Inside first length) :=
      fun k hk => h (k + 1) (Nat.succ_lt_succ hk)
    change Step.after count s.advance = .next t at hlast
    rcases s.advance_cases with ⟨-, hsame⟩ | ⟨-, ⟨hroom', hstep⟩ | ⟨-, hdone⟩⟩
    · rw [hsame] at hrest hlast
      exact ih hroom hrest hlast
    · rw [hstep] at hrest hlast
      cases hnext : s.step with
      | done result cpu =>
        rw [hnext, Step.after_done] at hlast
        cases hlast
      | next s' =>
        rw [hnext] at hroom' hrest hlast
        exact .head ⟨hinside, hnext⟩ (ih hroom' hrest hlast)
    · rw [hdone, Step.after_done] at hlast
      cases hlast

end Session

namespace MemoryMap

instance (map : MemoryMap) (x : UInt32) : Decidable (map.ReadableCode x) :=
  decidable_of_iff (x &&& 1 = 0 ∧ ∀ chunk ∈ map.chunkAt? x,
      chunk.access.read = true ∧ chunk.access.laneOnly = false ∧ chunk.start &&& 1 = 0 ∧
        chunk.mask &&& 1 = 1)
    ⟨fun h => ⟨h.1, h.2⟩, fun h => ⟨h.even, h.chunk⟩⟩

end MemoryMap

/-- Memory that holds nothing but returns from subroutines. -/
def MemoryMap.returning : MemoryMap :=
  .program 0xFFFFFF 0xFFFFFFFF []

theorem Cpu.isNew_returning : (fresh .default .returning).IsNew .default .returning :=
  isNew_program (by decide) rfl

/-- The return at address 0. -/
def Instruction.returning : Instruction where
  op := .rts
  variant := .normal
  extra := .none
  src := .none
  dst := .none
  address := 0
  length := 2

/-- A run comes to the first return, and some steps later it is still there. -/
def Cpu.Returns (cpu : Cpu) (count : Nat) (Q : Session → Session → Prop) : Prop :=
  cpu.Reaches 20 .returning 2 0 fun s =>
    s.cpu.overfull = false ∧
    (∀ k < count, (Step.after k (.next s)).ComesTo
      (Session.Inside 24 (Instruction.returning.body s.cpu.config).length)) ∧
    (Step.after count (.next s)).ComesTo fun t =>
      t.Inside 24 (Instruction.returning.body s.cpu.config).length ∧
      t.cpu.store.code.ops.size < 2 ^ 31 ∧ Q s t

namespace Cpu.Returns

variable {cpu last : Cpu} {count : Nat} {Q : Session → Session → Prop}

instance [∀ s t, Decidable (Q s t)] : Decidable (cpu.Returns count Q) :=
  inferInstanceAs (Decidable (Step.ComesTo _ _))

theorem executes (h : last.Returns count Q)
    (hhistory : Moment.History allowed (.idle cpu) (.idle last) past)
    (hnone : ∀ m ∈ past, m.cpu.store.entries.origins = []) :
    ∃ s t past', Moment.History allowed (.idle cpu) (.running s) past' ∧
      MadeFrom past' 20 .returning ∧ s.Executes 20 .returning t ∧ t.cpu.Fits ∧ Q s t := by
  obtain ⟨-, s, past', -, hhistory', hmade, hsite, hroom, hpath, h⟩ :=
    Reaches.made h hhistory hnone
  obtain ⟨t, hlast, hinside, hfits, hq⟩ := h.session
  exact ⟨s, t, past', hhistory', hmade, ⟨hsite, .of_after hroom hpath hlast, hinside⟩, hfits, hq⟩

end Cpu.Returns

namespace Host.Service

theorem isAccess_of_isWide (h : service.isWide = true) : service.isAccess = true := by
  cases service <;> first | rfl | cases h

theorem faultKind_ne_fetch (service : Service) : service.faultKind ≠ .fetch := by
  cases service <;> decide

end Host.Service

theorem Outcome.ofEntry_ne_resume (entry : Except CpuError CodePtr) (offset : UInt32) :
    ofEntry entry ≠ .resume offset := by
  cases entry <;> exact Outcome.noConfusion

theorem Cpu.faultPc_access (cpu : Cpu) (address origin : UInt32) {kind : FaultKind}
    (h : kind ≠ .fetch) : cpu.faultPc ⟨address, kind, some origin⟩ = origin + 2 := by
  cases kind with
  | fetch => exact absurd rfl h
  | read => rfl
  | write => rfl

/-- Accesses to odd addresses leave no trace. Let a run be in the code of an instruction, after
whatever was compiled before, and ask for a word or a long at an odd address. Then data registers
are as they were when the instruction began, and so is all memory but for the frame. The frame is
stacked where the supervisor stack pointer is by then, and it holds the access, the address, the
opcode word of the instruction, the status register and the address of the word behind the
opcode. -/
theorem odd_access_precise {config : Config} {memory : MemoryMap} {cpu : Cpu}
    (hnew : cpu.IsNew config memory) {allowed : Operation → Prop} {past : List Moment}
    {s t : Session} (hhistory : Moment.History allowed (.idle cpu) (.running s) past)
    {n : CodePtr} {inst : Instruction} (hmade : MadeFrom past n inst)
    (hexecutes : s.Executes n inst t) (hfits : t.cpu.Fits) {service : Service}
    (hop : t.cpu.store.code.op? t.site = some (.service service)) (hwide : service.isWide = true)
    (hodd : service.address t.machine &&& 1 ≠ 0)
    (heven : t.asked.registers.stack true &&& 1 = 0)
    (hram : t.cpu.memory.IsRam (below (t.asked.registers.stack true) 7) 14)
    (hcode : s.cpu.memory.ReadableCode inst.address) {opcode : UInt16}
    (hopcode : s.cpu.memory.fetchWords inst.address 1 = [opcode]) :
    (∀ k, t.step.cpu.registers.d k = s.asked.registers.d k) ∧
      (∀ cell, some cell ∉ t.cpu.memory.cellsAt (below (t.asked.registers.stack true) 7) 14 →
        t.step.cpu.memory.byteIn? cell = s.cpu.memory.byteIn? cell) ∧
      t.step.cpu.memory.words (below (t.asked.registers.stack true) 7) 7 =
        [AddressFault.accessWord ⟨service.address t.machine, service.faultKind, some inst.address⟩
            opcode t.asked.registers.supervisor,
          (service.address t.machine >>> 16).toUInt16, (service.address t.machine).toUInt16, opcode,
          t.asked.registers.sr, ((inst.address + 2) >>> 16).toUInt16,
          (inst.address + 2).toUInt16] ∧
      s.cpu.memory.canonical inst.address = inst.address := by
  have hgrows : Grows s.cpu t.cpu := Session.grows_advances hexecutes.path.advances
  obtain ⟨p, hunit, hasking⟩ := hexecutes.asking hnew hhistory hmade hfits hop
  obtain ⟨hdata, hbytes⟩ := hasking.found.1 hwide hodd
  have hcaller := hasking.called (.inl (service.isAccess_of_isWide hwide)) inst hunit
  have hserved : t.served service = .ofEntry (t.asked.takeAddressError
      ⟨service.address t.machine, service.faultKind, some inst.address⟩) := by
    rw [Session.served, t.asked.serve_odd t.machine (fun _ => rfl) hwide hodd, oddAccess, hcaller]
  have hstep := Session.step_cpu hop (hserved ▸ Outcome.ofEntry_ne_resume _)
  rw [hserved] at hstep
  have hopcode' : (t.asked.faultOpcode
      ⟨service.address t.machine, service.faultKind, some inst.address⟩).1 = opcode := by
    have hsame : MemoryMap.SameCode s.cpu.memory t.cpu.memory := hbytes.sameCode
    exact (hcode.congr hsame.shape).read16 ((hsame.fetchWords _ _).trans hopcode)
  have hfaulted := t.asked.takeAddressError_faulted
    ⟨service.address t.machine, service.faultKind, some inst.address⟩ heven hram
  rw [hopcode'] at hfaulted
  rw [hstep]
  refine ⟨fun k => ?_, fun cell hcell => ?_, ?_, ?_⟩
  · refine (hfaulted.data k).trans (Eq.trans ?_ (hdata k))
    rw [← hasking.config_eq]
    rfl
  · exact (hfaulted.outside cell hcell).trans (hbytes.bytes cell)
  · refine hfaulted.frame.trans ?_
    rw [faultFrame, faultPc_access _ _ _ service.faultKind_ne_fetch]
  · exact hmade.canonical hnew hhistory (hgrows.fits hfits)

/-- A processor in user mode with an odd stack pointer. -/
def Cpu.oddUser : Cpu :=
  (((fresh .default .returning).setA 7 32).setSr 0).setA 7 17

/-- The return address is not read. -/
theorem odd_access_precise_returning :
    ∃ s t : Session, s.Executes 20 .returning t ∧ s.asked.registers.stack false = 17 ∧
      t.step.cpu.memory.words 18 7 = [0x4E71, 0, 17, 0x4E75, 0, 0, 2] := by
  have hreturns : oddUser.Returns 4 fun s t =>
      s.asked.registers.stack false = 17 ∧ s.cpu.memory.ReadableCode 0 ∧
      s.cpu.memory.fetchWords 0 1 = [0x4E75] ∧
      t.cpu.store.code.op? t.site = some (.service .read32) ∧
      t.asked.registers.stack true = 32 ∧ t.cpu.memory.IsRam 18 14 ∧
      Service.address .read32 t.machine = 17 ∧ t.asked.registers.sr = 0 ∧
      t.asked.registers.supervisor = false := by
    decide +kernel
  have hhistory : Moment.History (fun _ => True) (.idle (.fresh .default .returning))
      (.idle oddUser) _ :=
    .next (.next (.next .start (.operate _ (.setA 7 32) True.intro))
      (.operate _ (.setSr 0) True.intro)) (.operate _ (.setA 7 17) True.intro)
  obtain ⟨s, t, past, hhistory, hmade, hexecutes, hfits, hpointer, hcode, hopcode, hop, hstack,
    hram, haddress, hsr, hmode⟩ := hreturns.executes hhistory (by
      simp only [List.forall_mem_cons]
      exact ⟨rfl, rfl, rfl, rfl, List.forall_mem_nil _⟩)
  have hframe := (odd_access_precise isNew_returning hhistory hmade hexecutes hfits hop rfl
    (by rw [haddress]; decide) (by rw [hstack]; decide) (by rw [hstack]; exact hram) hcode
    hopcode).2.2.1
  rw [hstack, haddress, hsr, hmode] at hframe
  exact ⟨s, t, hexecutes, hpointer, hframe⟩

namespace Cpu

variable (cpu : Cpu)

/-- What a return from an exception takes off the stack, and the processor after that. -/
def unwound : UInt32 × Cpu :=
  let sp := cpu.registers.a 7
  let (sr, cpu) := cpu.read16 sp
  let (pc, cpu) := cpu.read32 (sp + 2)
  (pc, { (cpu.setA 7 (sp + 6)).setSr sr with pc := pc })

theorem returnFromException_eq (origin : Option UInt32) :
    cpu.returnFromException origin = cpu.unwound.2.resolve cpu.unwound.1 origin :=
  rfl

theorem serve_locate (host : State) :
    (∀ offset, (cpu.serve host .locate).outcome ≠ .resume offset) ∧
      (cpu.serve host .locate).cpu =
        (cpu.resolve (host.reg Role.scratch1) (cpu.caller? host)).2 := by
  simp only [serve]
  split
  · rename_i hresolve
    rw [hresolve]
    exact ⟨fun offset => Outcome.noConfusion, rfl⟩
  · rename_i hresolve
    rw [hresolve]
    exact ⟨fun offset => Outcome.noConfusion, rfl⟩

end Cpu

namespace Host.Service

/-- What the frame of an address error holds as opcode word. -/
def stackedOpcode (service : Service) (opcode : UInt16) : UInt16 :=
  if service = .returnFromException then 0 else opcode

/-- The instruction that is known to go on at an odd address. -/
def goer? (service : Service) (inst : Instruction) : Option UInt32 :=
  if service = .returnFromException then none else some inst.address

end Host.Service

namespace Session

/-- A service goes on at a guest address. A return from an exception does so with the processor as
it was before that. -/
inductive GoesTo (t : Session) : Service → Cpu → UInt32 → Prop where
  | computed : GoesTo t .locate t.asked (t.machine.state.reg Role.scratch1)
  | known : GoesTo t .fetchError t.asked (t.machine.state.reg Role.scratch1)
  | returns : GoesTo t .returnFromException t.asked.unwound.2 t.asked.unwound.1

theorem GoesTo.faults {config : Config} {cpu : Cpu} {target : UInt32}
    (h : t.GoesTo service cpu target) (hodd : target &&& 1 ≠ 0) {b : Outset} {p : Pair}
    (hunit : p.unit = .instruction b.inst) (hasking : t.Asking config b.needs p service)
    (hop : t.cpu.store.code.op? t.site = some (.service service)) :
    t.step.cpu = (cpu.takeAddressError ⟨target, .fetch, service.goer? b.inst⟩).2 := by
  cases h with
  | computed =>
    obtain ⟨houtcome, hserved⟩ := t.asked.serve_locate t.machine.state
    rw [step_cpu hop houtcome]
    refine hserved.trans ?_
    rw [hasking.called (.inr rfl) _ hunit, resolve_odd hodd]
    rfl
  | known =>
    obtain ⟨horigin, -⟩ := hasking.found.2 rfl
    rw [step_cpu hop (Outcome.ofEntry_ne_resume _)]
    change (t.asked.takeAddressError ⟨_, .fetch, some (t.machine.state.reg Role.scratch2)⟩).2 = _
    rw [show t.machine.state.reg Role.scratch2 = b.inst.address from horigin]
    rfl
  | returns =>
    rw [step_cpu hop (Outcome.ofEntry_ne_resume _)]
    change (t.asked.returnFromException (t.asked.caller? t.machine.state)).2 = _
    rw [hasking.direct rfl, returnFromException_eq, resolve_odd hodd]
    rfl

end Session

/-- Whoever goes on at an odd address is stacked with it. Let a run be in the code of an
instruction and go on at an odd guest address: one that it computed, one that was known when it was
compiled, or one that a return from an exception took off the stack. Then the frame holds the
address twice, as program counter and as what was to be fetched, and the opcode word that memory
holds at the instruction by then, or 0 for a return from an exception. Direct jumps only go to even
addresses. -/
theorem odd_target_stacked {config : Config} {memory : MemoryMap} {cpu : Cpu}
    (hnew : cpu.IsNew config memory) {allowed : Operation → Prop} {past : List Moment}
    {s t : Session} (hhistory : Moment.History allowed (.idle cpu) (.running s) past)
    {n : CodePtr} {inst : Instruction} (hmade : MadeFrom past n inst)
    (hexecutes : s.Executes n inst t) (hfits : t.cpu.Fits) {service : Service}
    (hop : t.cpu.store.code.op? t.site = some (.service service)) {before : Cpu} {target : UInt32}
    (hgoes : t.GoesTo service before target) (hodd : target &&& 1 ≠ 0)
    (heven : before.registers.stack true &&& 1 = 0)
    (hram : before.memory.IsRam (below (before.registers.stack true) 7) 14)
    (hcode : t.cpu.memory.ReadableCode inst.address) {opcode : UInt16}
    (hopcode : t.cpu.memory.fetchWords inst.address 1 = [opcode]) :
    t.step.cpu.memory.words (below (before.registers.stack true) 7) 7 =
        [AddressFault.accessWord ⟨target, .fetch, service.goer? inst⟩
            (service.stackedOpcode opcode) before.registers.supervisor,
          (target >>> 16).toUInt16, target.toUInt16, service.stackedOpcode opcode,
          before.registers.sr, (target >>> 16).toUInt16, target.toUInt16] ∧
      (service = .fetchError → inst.knownTarget? = some target) ∧
      ∀ (i : Nat) x, (inst.body config)[i]? = some (.goto x) → x &&& 1 = 0 := by
  obtain ⟨p, hunit, hasking⟩ := hexecutes.asking hnew hhistory hmade hfits hop
  have hstep := hgoes.faults hodd hunit hasking hop
  have hfaulted := before.takeAddressError_faulted ⟨target, .fetch, service.goer? inst⟩ heven hram
  have hread : (before.faultOpcode ⟨target, .fetch, service.goer? inst⟩).1 =
      service.stackedOpcode opcode := by
    cases hgoes with
    | computed => exact hcode.read16 hopcode
    | known => exact hcode.read16 hopcode
    | returns => rfl
  refine ⟨?_, ?_, ?_⟩
  · rw [hstep, ← hread]
    exact hfaulted.frame
  · rintro rfl
    cases hgoes
    exact (hasking.found.2 rfl).2.2
  · intro i x hitem
    obtain ⟨m, -, hinst⟩ := hmade.decoded
    have hshaped : (CodeUnit.instruction inst).Shaped := by
      rw [hinst]
      exact CodeUnit.decode_shaped _ _ _
    exact CodeUnit.goto_even hshaped config config.registerAssignment hitem

/-- A return address that is odd. -/
theorem odd_target_stacked_returning :
    ∃ s t : Session, s.Executes 20 .returning t ∧ s.asked.registers.stack true = 32 ∧
      t.step.cpu.memory.words 22 7 =
        [0x4E76, 0x4E75, 0x4E75, 0x4E75, 0x2700, 0x4E75, 0x4E75] := by
  have hreturns : ((fresh .default .returning).setA 7 32).Returns 7 fun s t =>
      s.asked.registers.stack true = 32 ∧ t.cpu.memory.ReadableCode 0 ∧
      t.cpu.memory.fetchWords 0 1 = [0x4E75] ∧
      t.cpu.store.code.op? t.site = some (.service .locate) ∧
      t.asked.registers.stack true = 36 ∧ t.cpu.memory.IsRam 22 14 ∧
      t.machine.state.reg Role.scratch1 = 0x4E754E75 ∧ t.asked.registers.sr = 0x2700 ∧
      t.asked.registers.supervisor = true := by
    decide +kernel
  have hhistory : Moment.History (fun _ => True) (.idle (.fresh .default .returning))
      (.idle ((fresh .default .returning).setA 7 32)) _ :=
    .next .start (.operate _ (.setA 7 32) True.intro)
  obtain ⟨s, t, past, hhistory, hmade, hexecutes, hfits, hpointer, hcode, hopcode, hop, hstack,
    hram, htarget, hsr, hmode⟩ := hreturns.executes hhistory (by
      simp only [List.forall_mem_cons]
      exact ⟨rfl, rfl, List.forall_mem_nil _⟩)
  have hframe := (odd_target_stacked isNew_returning hhistory hmade hexecutes hfits hop
    .computed (by rw [htarget]; decide) (by rw [hstack]; decide) (by rw [hstack]; exact hram) hcode
    hopcode).1
  rw [hstack, htarget, hsr, hmode] at hframe
  exact ⟨s, t, hexecutes, hpointer, hframe⟩

end Dynarec68k
