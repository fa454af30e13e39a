import Dynarec68k.Proofs.CurrentCode
import Dynarec68k.Proofs.SampleRuns

namespace Dynarec68k

open Host Relation

theorem Cpu.IsNew.plainBus {cpu : Cpu} {config : Config} {memory : MemoryMap}
    (hnew : cpu.IsNew config memory) (hmodel : config.model ≠ .m68020)
    (hmasks : ∀ chunk ∈ memory.chunks, chunk.mask = 0xFFFFFFFF)
    (hstops : ∀ chunk ∈ memory.chunks, chunk.stop.toNat ≤ 2 ^ 24)
    (hshift : 2 ≤ config.trackingShift.toNat) : PlainBus config memory where
  model := Model.is68020_eq_false hmodel
  sound := hnew.sound
  bus := hnew.eq_fresh.1
  masks := hmasks
  stops := hstops
  low := hshift
  high := hnew.shift.2

/-- Self-modifying code never runs stale. On the models with 24 address lines, where no range is
repeated or goes beyond the bus and regions are longs at least, at every moment of an execution in which
memory is not changed behind the processor's back: the entry of an address from which instructions can
be fetched is redirected, or its code was made from the instruction that memory holds there now. For the
first address, which a long at the end of the bus goes on to, this is so if what is there cannot
change. -/
theorem entries_in_step_with_memory {cpu : Cpu} {config : Config} {memory : MemoryMap}
    (hnew : cpu.IsNew config memory) (hmodel : config.model ≠ .m68020)
    (hmasks : ∀ chunk ∈ memory.chunks, chunk.mask = 0xFFFFFFFF)
    (hstops : ∀ chunk ∈ memory.chunks, chunk.stop.toNat ≤ 2 ^ 24)
    (hshift : 2 ≤ config.trackingShift.toNat) {m : Moment} {past : List Moment}
    (hhistory : Moment.History Operation.Noticed (.idle cpu) m past) (hfits : m.cpu.Fits)
    {x : UInt32} {n : CodePtr} (hexecutable : m.cpu.memory.isExecutable x = true)
    (hlookup : m.cpu.store.lookup x = some n)
    (hfirst : x ≠ 0 ∨ memory.isTracked x = false) :
    m.cpu.store.entryKind n = .redirected ∨ MadeFrom past n (m.cpu.view.instructionAt x) := by
  have hbus := hnew.plainBus hmodel hmasks hstops hshift
  have hinitial : (Upkeep.current hbus).Inv cpu.view (fun _ => False) .initial :=
    ⟨Kept.initial config memory, fun _ hp => absurd hp not_false⟩
  obtain ⟨P, hknown⟩ :=
    hnew.chronicle (Upkeep.current hbus) hinitial (fun _ ho => ho) hhistory hfits
  obtain ⟨hsole, hkept, hcurrent⟩ := hknown.tracks.sole
  rw [show m.cpu.memory.isExecutable x = memory.isExecutable x from
    hsole.fixed.shape.isExecutable x] at hexecutable
  obtain ⟨p, hp, rfl, hword, heven⟩ := hsole.lookup hlookup
  obtain rfl : p.unit.address = x := eq_of_word (hkept.tidy.home p hp).1 heven hword
  obtain ⟨inst, hunit⟩ := hkept.units p hp hexecutable
  rw [hunit, CodeUnit.address] at hexecutable hlookup hfirst ⊢
  have hfrom : MadeFrom past p.left.toUInt32 inst := hknown.made_iff.mpr ⟨p, hp, rfl, hunit⟩
  by_cases hkind : m.cpu.store.entryKind p.left.toUInt32 = .redirected
  · exact .inl hkind
  · rw [hcurrent p hp inst hunit hfirst hexecutable hlookup hkind]
    exact .inr hfrom

/-- The NOP of a loop was written over, and the code in its place was made from what was written. -/
theorem entries_in_step_with_memory_renewed :
    ∃ (last : Cpu) (past : List Moment), (Cpu.renewing .default).RunsTo 26 (.ok (), last) ∧
      last.store.lookup 4 = some 44 ∧ MadeFrom past 44 (.decode .m68000 4 [0x7201]) := by
  obtain ⟨last, hruns, hroom, -, -, ⟨hlookup, hkind⟩, hexecutable, hinst⟩ := Cpu.renewing_runsTo
  have hhistory : Moment.History Operation.Noticed _ (.idle (.renewing .default)) _ :=
    .next .start (.operate _ (.setD 0 0x7201) fun _ _ h => by cases h)
  obtain ⟨past, hpast, -⟩ := hhistory.along (hruns.moments _)
  rcases entries_in_step_with_memory (Cpu.isNew_program (by decide) rfl) (by decide) (by decide)
    (by decide) (by decide) hpast hroom.fits hexecutable hlookup (.inl (by decide)) with
    hredirected | hmade
  · exact absurd (hkind.symm.trans hredirected) (by decide)
  · rw [show (Moment.idle last).cpu = last from rfl, hinst] at hmade
    exact ⟨last, past, hruns, hlookup, hmade⟩

end Dynarec68k
