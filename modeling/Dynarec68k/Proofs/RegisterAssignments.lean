import Dynarec68k.Proofs.SampleRuns

namespace Dynarec68k

open Host Relation

/-- Something asked of a processor. -/
inductive Call where
  | operate (operation : Operation)
  | run (target : UInt32)

/-- What a processor answers. -/
inductive Reply where
  | done
  | refused (error : CpuError)
  | removed (was : Bool)
  | events (events : Array Event)
  | acknowledged (level : Option UInt8)
  | ran (result : Except CpuError Unit)

def Reply.ofRequest {α : Type} : Except CpuError α → Reply
  | .ok _ => .done
  | .error error => .refused error

/-- What an operation gives back. -/
def Operation.reply (cpu : Cpu) : Operation → Reply
  | restore bytes => .ofRequest (cpu.restore bytes)
  | selectBank start bank => .ofRequest (cpu.selectBank start bank)
  | removeBreakpoint address => .removed (cpu.removeBreakpoint address).1
  | takeEvents => .events cpu.takeEvents.1
  | takeAcknowledged => .acknowledged cpu.takeAcknowledged.1
  | _ => .done

namespace Cpu

/-- Calls are made one after the other, each with its reply. -/
inductive Performs : Cpu → List Call → List Reply → Cpu → Prop where
  | nil (cpu : Cpu) : Performs cpu [] [] cpu
  | operate {cpu last : Cpu} {calls : List Call} {replies : List Reply} (operation : Operation)
      (rest : Performs (operation.apply cpu) calls replies last) :
      Performs cpu (.operate operation :: calls) (operation.reply cpu :: replies) last
  | run {cpu next last : Cpu} {calls : List Call} {replies : List Reply} {target : UInt32}
      {result : Except CpuError Unit} (runs : cpu.RunsTo target (result, next))
      (rest : Performs next calls replies last) :
      Performs cpu (.run target :: calls) (.ran result :: replies) last

/-- Code has room all through a series of calls. -/
def HasRoomFor (cpu : Cpu) : List Call → Prop
  | [] => True
  | .operate operation :: calls => (operation.apply cpu).HasRoomFor calls
  | .run target :: calls =>
    cpu.Throughout Roomy target ∧ ∀ answer, cpu.RunsTo target answer → answer.2.HasRoomFor calls

theorem grows_runsTo {cpu : Cpu} {target : UInt32} {answer : Except CpuError Unit × Cpu}
    (h : cpu.RunsTo target answer) : Grows cpu answer.2 :=
  Moment.Next.grows (h.moments fun _ => True)

theorem Performs.grows {cpu last : Cpu} {calls : List Call} {replies : List Reply}
    (h : cpu.Performs calls replies last) : Grows cpu last := by
  induction h with
  | nil cpu => exact .refl cpu
  | operate operation _ ih => exact (operation.grows_apply _).trans ih
  | run runs _ ih => exact (grows_runsTo runs).trans ih

end Cpu

namespace Coupling.Twins

variable {config : Config} {a b : RegisterAssignment} {map : MemoryMap}
  {P : Pair → Prop} {x y last : Cpu}

theorem reply (h : (matching config a b map).Twins P x y) (operation : Operation) :
    operation.reply x = operation.reply y := by
  have hmemory : y.memory = x.memory := h.reading Cpu.memory fun _ _ _ => rfl
  cases operation with
  | restore bytes =>
    unfold Operation.reply Cpu.restore
    dsimp only
    split <;> rfl
  | selectBank start bank =>
    unfold Operation.reply Cpu.selectBank
    dsimp only
    rw [hmemory]
    cases x.memory.selectBank start bank with
    | error e => rfl
    | ok selected =>
      obtain ⟨_ | _, _⟩ := selected <;> rfl
  | removeBreakpoint address =>
    have hremoved := h.removeBreakpoint (serviced_matching _ _ _ _) address trivial
    exact congrArg Reply.removed hremoved.1
  | takeEvents => exact congrArg (fun memory => Reply.events memory.log) hmemory.symm
  | takeAcknowledged =>
    have hlevel : y.acknowledged = x.acknowledged := h.reading Cpu.acknowledged fun _ _ _ => rfl
    exact congrArg Reply.acknowledged hlevel.symm
  | _ => rfl

theorem performs (h : (matching config a b map).Twins P x y) {calls : List Call}
    {replies : List Reply} (hperforms : x.Performs calls replies last) (hlast : last.Roomy)
    (hroom : y.HasRoomFor calls) :
    ∃ (P' : Pair → Prop) (last' : Cpu), y.Performs calls replies last' ∧
      (matching config a b map).Twins P' last last' := by
  induction hperforms generalizing y P with
  | nil cpu => exact ⟨P, y, .nil y, h⟩
  | @operate cpu last calls replies operation _ ih =>
    obtain ⟨P', last', hrest, htwins⟩ := ih (h.operate (serviced_matching _ _ _ _) trivial) hlast hroom
    refine ⟨P', last', ?_, htwins⟩
    rw [h.reply operation]
    exact .operate operation hrest
  | @run cpu next last calls replies target result runs rest ih =>
    obtain ⟨P', next', -, hruns, htwins⟩ := h.runs hroom.1 runs (rest.grows.roomy hlast)
    obtain ⟨P'', last', hrest, htwins'⟩ := ih htwins hlast (hroom.2 _ hruns)
    exact ⟨P'', last', .run hruns hrest, htwins'⟩

end Coupling.Twins

/-- Two processors that differ in their register assignment alone give the same replies to the same
calls, and stay equal but for the assignment and the compiled code. -/
theorem assignment_invisible {config : Config} {memory : MemoryMap} {a b : RegisterAssignment}
    {x y last : Cpu} (hx : x.IsNew (config.assign a) memory)
    (hy : y.IsNew (config.assign b) memory) {calls : List Call} {replies : List Reply}
    (hperforms : x.Performs calls replies last) (hroom : last.Roomy)
    (hroom' : y.HasRoomFor calls) :
    ∃ store, y.Performs calls replies { last with config := config.assign b, store := store } := by
  obtain ⟨P, last', hperforms', c, s, t, rfl, rfl, hpaired⟩ :=
    (hx.twins hy).performs hperforms hroom hroom'
  have hconfig : c.config = config := hpaired.fixed.config
  refine ⟨t, ?_⟩
  rw [← hconfig]
  exact hperforms'

/-- A program that writes over its own code, translated by the native backend. -/
theorem assignment_invisible_renewing :
    let config : Config := { Config.default with backend := .native }
    let memory : MemoryMap := .program 0xFFFFFF 0xFFFFFFFF [0x31C0, 4, 0x4E71, 0x60F8]
    let calls : List Call := [.operate (.setD 0 0x7201), .run 26]
    let replies : List Reply := [.done, .ran (.ok ())]
    ∃ last store, (Cpu.fresh (config.assign .mixed) memory).Performs calls replies last ∧
      last.store.counters.recompiled = 2 ∧
      (Cpu.fresh (config.assign .inFile) memory).Performs calls replies
        { last with config := config.assign .inFile, store := store } := by
  intro config memory calls replies
  obtain ⟨_, last, hruns, hroom, rfl, hrecompiled⟩ := Cpu.runsTo_of_runs
    (show ((Cpu.renewing (config.assign .mixed)).begin 26).Runs (fun _ => True) (fun result last =>
      last.Settled ∧ result = .ok () ∧ last.store.counters.recompiled = 2) 40 by decide +kernel)
  obtain ⟨_, last', hruns', hroom', -⟩ := Cpu.runsTo_of_runs
    (show ((Cpu.renewing (config.assign .inFile)).begin 26).Runs (fun _ => True) (fun _ last =>
      last.Settled ∧ True) 60 by decide +kernel)
  have hperforms : (Cpu.fresh (config.assign .mixed) memory).Performs calls replies last :=
    .operate (.setD 0 0x7201) (.run hruns (.nil last))
  obtain ⟨store, hperforms'⟩ := assignment_invisible (Cpu.isNew_program (by decide) rfl)
    (Cpu.isNew_program (by decide) rfl) hperforms hroom
    ⟨hruns'.throughout hroom'.native hroom' fun _ _ => Cpu.Grows.roomy, fun _ _ => trivial⟩
  exact ⟨last, store, hperforms, hrecompiled, hperforms'⟩

end Dynarec68k
