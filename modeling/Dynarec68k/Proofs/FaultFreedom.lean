import Dynarec68k.Proofs.OneProcessor
import Dynarec68k.Proofs.SampleRuns

namespace Dynarec68k

open Host Relation

/-- Whatever was asked of a processor since it was created, and whatever its memory holds, a run
never ends in a fault of the host, as long as positions of the code fit into the words that hold
them. -/
theorem runUntil_never_faults {cpu start : Cpu} {config : Config} {memory : MemoryMap}
    (hnew : cpu.IsNew config memory) {allowed : Operation → Prop}
    (hreached : ReflTransGen (Moment.Next allowed) (.idle cpu) (.idle start)) {target : UInt32}
    {answer : Except CpuError Unit × Cpu} (hruns : start.RunsTo target answer)
    (hroom : answer.2.store.code.ops.size < 2 ^ 31) (site : CodePtr) (reason : FaultReason) :
    answer.1 ≠ .error (.hostFault site reason) := by
  have hgrows : Cpu.Grows start answer.2 := Moment.Next.grows (hruns.moments allowed)
  obtain ⟨P, htwins, -⟩ := hnew.tracks (.trivial config memory) trivial
    (fun _ _ => trivial) hreached (hgrows.fits hroom) start.registers
  obtain ⟨y, halone⟩ := htwins
  have hbenign := halone.runs_benign oneSided_alone hruns hroom
  intro hfault
  exact absurd (hbenign _ hfault) Bool.false_ne_true

/-- A run that writes over its own code and compiles it again. -/
theorem runUntil_never_faults_renewing :
    ∃ result last, (Cpu.renewing .default).RunsTo 26 (result, last) ∧
      last.store.counters.recompiled = 2 ∧
      ∀ site reason, result ≠ .error (.hostFault site reason) := by
  obtain ⟨last, hruns, hroom, ⟨-, hrecompiled⟩, -⟩ := Cpu.renewing_runsTo
  have hprepared : ReflTransGen (Moment.Next fun _ => True) _ (.idle (.renewing .default)) :=
    .single (.operate _ (.setD 0 0x7201) True.intro)
  exact ⟨_, last, hruns, hrecompiled, runUntil_never_faults (Cpu.isNew_program (by decide) rfl)
    hprepared hruns hroom.fits⟩

end Dynarec68k
