import Dynarec68k.Proofs.MatchedProcessors

namespace Dynarec68k

open Host Relation

/-- The memory, which can be read, written and executed. -/
def Chunk.filled (mask : UInt32) : Chunk where
  start := 0
  stop := 64
  mask := mask
  access := ⟨true, true, true, false, false⟩
  backing := .buffer ⟨Array.replicate 64 0x71⟩

/-- The memory as the first of two banks, of which the second holds other bytes. -/
def Chunk.twofold (mask : UInt32) : Chunk :=
  { filled mask with
    backing := .banked #[⟨Array.replicate 64 0x71⟩, ⟨Array.replicate 64 0x4E⟩] 0 }

namespace MemoryMap

def filled (bus mask : UInt32) : MemoryMap where
  chunks := #[.filled mask]
  addressMask := bus
  log := #[]

def twofold (bus mask : UInt32) : MemoryMap where
  chunks := #[.twofold mask]
  addressMask := bus
  log := #[]

variable (bus mask : UInt32)

theorem chunkAt?_filled : (filled bus mask).chunkAt? 0 = some (.filled mask) := by
  rw [chunkAt?, UInt32.zero_and]
  rfl

theorem build_filled : build [.filled mask] bus = .ok (filled bus mask) := by
  refine build_singleton bus (by decide : (0 : UInt32) < 64) rfl fun data hdata => ?_
  rw [List.mem_singleton.mp hdata]
  exact Nat.min_le_left _ _

theorem build_twofold : build [.twofold mask] bus = .ok (twofold bus mask) := by
  refine build_singleton bus (by decide : (0 : UInt32) < 64) rfl fun data hdata => ?_
  have hneeded : (Chunk.twofold mask).needed ≤ 64 := Nat.min_le_left _ _
  rcases List.mem_cons.mp hdata with rfl | hdata
  · exact hneeded
  · rw [List.mem_singleton.mp hdata]
    exact hneeded

end MemoryMap

/-- Memory that holds some words, and behind them returns from subroutines. -/
def Chunk.program (mask : UInt32) (words : List UInt16) : Chunk :=
  { filled mask with
    backing := .buffer ⟨((words ++ List.replicate (32 - words.length) 0x4E75).flatMap
      fun w : UInt16 => [(w >>> 8).toUInt8, w.toUInt8]).toArray⟩ }

def MemoryMap.program (bus mask : UInt32) (words : List UInt16) : MemoryMap where
  chunks := #[.program mask words]
  addressMask := bus
  log := #[]

/-- All that there is to a range with a buffer. -/
def Chunk.buffer? (chunk : Chunk) : Option (ChunkShape × Array UInt8) :=
  match chunk.backing with
  | .buffer data => some (chunk.shape, data.data)
  | _ => none

theorem MemoryMap.eq_program_iff {map : MemoryMap} {bus mask : UInt32} {words : List UInt16} :
    map = .program bus mask words ↔ (map.addressMask = bus ∧ map.log = #[]) ∧
      map.chunks.toList.map Chunk.buffer? = [(Chunk.program mask words).buffer?] := by
  constructor
  · rintro rfl
    exact ⟨⟨rfl, rfl⟩, rfl⟩
  · obtain ⟨⟨chunks⟩, bus, log⟩ := map
    rintro ⟨⟨rfl, rfl⟩, hchunks⟩
    obtain ⟨⟨start, stop, mask, access, backing⟩, rfl, hchunk⟩ := List.map_eq_singleton_iff.mp hchunks
    cases backing with
    | buffer data =>
      obtain ⟨bytes⟩ := data
      cases hchunk
      rfl
    | banked => cases hchunk
    | device => cases hchunk

instance (map : MemoryMap) (bus mask : UInt32) (words : List UInt16) :
    Decidable (map = .program bus mask words) :=
  decidable_of_iff _ MemoryMap.eq_program_iff.symm

theorem Cpu.isNew_program {config : Config} {words : List UInt16} (hwords : words.length ≤ 32)
    {bus mask : UInt32}
    (h : create config (.program bus mask words) = .ok (fresh config (.program bus mask words))) :
    (fresh config (.program bus mask words)).IsNew config (.program bus mask words) := by
  have hneeded : (Chunk.program mask words).needed ≤ 64 := Nat.min_le_left _ _
  refine ⟨⟨_, _, MemoryMap.build_singleton bus (by decide : (0 : UInt32) < 64) rfl
    (List.forall_mem_singleton.mpr (hneeded.trans ?_))⟩, h⟩
  change 64 ≤ List.length _
  rw [List.length_flatMap]
  simp only [List.length_cons, List.length_nil, List.map_const', List.sum_replicate_nat,
    List.length_append, List.length_replicate]
  omega

namespace Step

/-- Not more than so many steps are left of a run. Its sessions are as they should be, and so is its
end. -/
def Runs (P : Session → Prop) (Q : Except CpuError Unit → Cpu → Prop) : Nat → Step → Prop
  | _, .done result last => Q result last
  | 0, .next _ => False
  | count + 1, .next s => P s ∧ s.step.Runs P Q count

namespace Runs

variable {P : Session → Prop} {Q : Except CpuError Unit → Cpu → Prop} {count : Nat} {s t : Session}

instance decidable [DecidablePred P] [∀ result last, Decidable (Q result last)] :
    (count : Nat) → (step : Step) → Decidable (step.Runs P Q count)
  | 0, .done result last => inferInstanceAs (Decidable (Q result last))
  | _ + 1, .done result last => inferInstanceAs (Decidable (Q result last))
  | 0, .next _ => .isFalse id
  | count + 1, .next s =>
    have := decidable count s.step
    inferInstanceAs (Decidable (P s ∧ s.step.Runs P Q count))

theorem ends (h : (Step.next s).Runs P Q count) :
    ∃ result last, s.Ends (result, last) ∧ Q result last := by
  induction count generalizing s with
  | zero => exact absurd h not_false
  | succ count ih =>
    obtain ⟨-, hrest⟩ := h
    cases hstep : s.step with
    | next s' =>
      rw [hstep] at hrest
      obtain ⟨result, last, ⟨t, hpath, hdone⟩, hq⟩ := ih hrest
      exact ⟨result, last, ⟨t, .head hstep hpath, hdone⟩, hq⟩
    | done result last =>
      rw [hstep] at hrest
      exact ⟨result, last, ⟨s, .refl, hstep⟩, by cases count <;> exact hrest⟩

theorem visited (h : (Step.next s).Runs P Q count) (hpath : ReflTransGen Session.Advances s t) :
    P t := by
  induction hpath using ReflTransGen.head_induction_on generalizing count with
  | refl =>
    cases count with
    | zero => exact absurd h not_false
    | succ count => exact h.1
  | @head s s' hstep _ ih =>
    cases count with
    | zero => exact absurd h not_false
    | succ count =>
      obtain ⟨-, hrest⟩ := h
      rw [hstep] at hrest
      exact ih hrest

end Runs

end Step

namespace Cpu

/-- The search for written code came to its end, and code has room. -/
def Settled (cpu : Cpu) : Prop :=
  cpu.store.endless = false ∧ cpu.store.code.ops.size < 2 ^ 31 ∧ cpu.overfull = false

instance (cpu : Cpu) : Decidable cpu.Settled :=
  inferInstanceAs (Decidable (_ ∧ _))

theorem runsTo_of_runs {cpu : Cpu} {target : UInt32} {P : Session → Prop}
    {Q : Except CpuError Unit → Cpu → Prop} {count : Nat}
    (h : (cpu.begin target).Runs P (fun result last => last.Settled ∧ Q result last) count) :
    ∃ result last, cpu.RunsTo target (result, last) ∧ last.Roomy ∧ Q result last := by
  unfold RunsTo
  cases hbegin : cpu.begin target with
  | next s =>
    rw [hbegin] at h
    obtain ⟨result, last, hends, ⟨hsearched, hfits, hroom⟩, hq⟩ := h.ends
    exact ⟨result, last, hends.halts hsearched hroom, ⟨hfits, hroom⟩, hq⟩
  | done result last =>
    rw [hbegin] at h
    obtain ⟨⟨hsearched, hfits, hroom⟩, hq⟩ : last.Settled ∧ Q result last := by
      cases count <;> exact h
    exact ⟨result, last, ⟨hsearched, rfl⟩, ⟨hfits, hroom⟩, hq⟩

/-- A processor in front of MOVE.W D0,(4).W, NOP and a branch back. What is written is
MOVEQ #1,D1, and in place of the NOP. -/
def renewing (config : Config) : Cpu :=
  (fresh config (.program 0xFFFFFF 0xFFFFFFFF [0x31C0, 4, 0x4E71, 0x60F8])).setD 0 0x7201

/-- The first two instructions were compiled again. The branch still goes to the old code of the
first. -/
def Renewed (cpu : Cpu) : Prop :=
  (cpu.store.counters.instructions = 5 ∧ cpu.store.counters.recompiled = 2) ∧
  (cpu.store.lookup 0 = some 55 ∧ cpu.store.code.ops[43]? = some (.jump (-24))) ∧
  (cpu.store.lookup 4 = some 44 ∧ cpu.store.entryKind 44 = .boundary) ∧
  cpu.memory.isExecutable 4 = true ∧ cpu.view.instructionAt 4 = .decode .m68000 4 [0x7201]

instance (cpu : Cpu) : Decidable cpu.Renewed :=
  inferInstanceAs (Decidable (_ ∧ _))

theorem renewing_runsTo :
    ∃ last, (renewing .default).RunsTo 26 (.ok (), last) ∧ last.Roomy ∧ last.Renewed := by
  obtain ⟨result, last, hruns, hroom, rfl, hrenewed⟩ := runsTo_of_runs
    (show ((renewing .default).begin 26).Runs (fun _ => True)
      (fun result last => last.Settled ∧ result = .ok () ∧ last.Renewed) 40 by decide +kernel)
  exact ⟨last, hruns, hroom, hrenewed⟩

/-- At its end the run is at the new code of the first instruction. -/
theorem renewing_boundary :
    ∃ r s, (renewing .default).begin 26 = .next r ∧ ReflTransGen Session.Advances r s ∧
      (s.site, 0) ∈ s.cpu.store.entries.origins ∧ s.asked.target ≤ s.asked.cycle ∧
      26 ≤ s.asked.cycle ∧ s.cpu.store.counters.recompiled = 2 := by
  obtain ⟨r, hbegin, hrest⟩ := Step.ComesTo.session
    (show ((renewing .default).begin 26).ComesTo fun r => (Step.after 32 (.next r)).ComesTo fun s =>
      (s.site, 0) ∈ s.cpu.store.entries.origins ∧ s.asked.target ≤ s.asked.cycle ∧
      26 ≤ s.asked.cycle ∧ s.cpu.store.counters.recompiled = 2 by decide +kernel)
  obtain ⟨s, hafter, hboundary⟩ := hrest.session
  exact ⟨r, s, hbegin, Step.path_of_after (begin_room hbegin) hafter, hboundary⟩

end Cpu

end Dynarec68k
