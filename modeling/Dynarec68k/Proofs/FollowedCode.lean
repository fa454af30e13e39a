import Dynarec68k.Proofs.CodeOrigins
import Dynarec68k.Proofs.SampleRuns
import Dynarec68k.Proofs.InstructionSteps

namespace Dynarec68k

open Host Relation

/-- Accesses are all that is asked for, and it is known which of them are odd. -/
def Needs.accesses (config : Config) (E : OddAccess → Prop) : Needs where
  service s _ m memory := s.isAccess = true ∧ (s.isWide = true → s.address m &&& 1 ≠ 0 →
    E ⟨s.faultKind, s.address m, .seen config.registerAssignment m memory⟩)
  leave _ _ _ _ := False
  target _ _ _ _ := False

def Allowance.accesses (config : Config) (E : OddAccess → Prop) :
    Allowance config (.accesses config E) E where
  time _ _ := True
  later _ _ := trivial
  granted haccess _ hodd := ⟨haccess, hodd⟩

theorem Cpu.serve_access (cpu : Cpu) (host : State) {service : Service}
    (haccess : service.isAccess = true) {m : Machine} (hhost : ∀ r, host.reg r = m.state.reg r)
    (h : ¬(service.isWide = true ∧ service.address m &&& 1 ≠ 0)) :
    (cpu.serve host service).outcome = .proceed := by
  have hread {size : Size} (hodd : ¬(size ≠ .byte ∧ m.state.reg Role.scratch1 &&& 1 ≠ 0)) :
      (cpu.serveRead host size (host.reg Role.scratch1)).outcome = .proceed := by
    rw [hhost]
    unfold serveRead
    rw [if_neg hodd]
    cases size <;> rfl
  have hwrite {size : Size} (lowFirst : Bool) (value : UInt32)
      (hodd : ¬(size ≠ .byte ∧ m.state.reg Role.scratch2 &&& 1 ≠ 0)) :
      (cpu.serveWrite host size lowFirst (host.reg Role.scratch2) value).outcome = .proceed := by
    rw [hhost]
    unfold serveWrite
    rw [if_neg hodd]
    cases size <;> first | rfl | (cases lowFirst <;> rfl)
  cases service with
  | read8 => exact hread fun hodd => hodd.1 rfl
  | read16 => exact hread fun hodd => h ⟨rfl, hodd.2⟩
  | read32 => exact hread fun hodd => h ⟨rfl, hodd.2⟩
  | write8 => exact hwrite false _ fun hodd => hodd.1 rfl
  | write16 => exact hwrite false _ fun hodd => h ⟨rfl, hodd.2⟩
  | write32 => exact hwrite _ _ fun hodd => h ⟨rfl, hodd.2⟩
  | write32LowFirst => exact hwrite _ _ fun hodd => h ⟨rfl, hodd.2⟩
  | _ => cases haccess

namespace Session

/-- A run is so many operations behind the head of the code of an instruction, whatever was done
before. -/
def At (config : Config) (inst : Instruction) (k : Nat) (s : Session) : Prop :=
  ∃ (memory : MemoryMap) (cpu : Cpu) (allowed : Operation → Prop) (past : List Moment)
    (n : CodePtr), cpu.IsNew config memory ∧
    Moment.History allowed (.idle cpu) (.running s) past ∧ MadeFrom past n inst ∧
    s.site = n + 4 + k.toUInt32 ∧ k ≤ (inst.body config).length ∧ s.cpu.Fits

/-- A run is about to make an odd access. -/
structure Fails (inst : Instruction) (e : OddAccess) (t : Session) : Prop where
  guest : t.asked.guest = e.guest
  served : ∃ service, t.cpu.store.code.op? t.site = some (.service service) ∧
    t.served service = .ofEntry (t.asked.takeAddressError ⟨e.address, e.kind, some inst.address⟩)

variable {config : Config} {inst : Instruction} {k : Nat} {s : Session}

theorem At.amid (h : s.At config inst k) :
    ∃ (map : MemoryMap) (P : Pair → Prop) (p : Pair), p.unit = .instruction inst ∧
      s.machine.Ready ∧ s.Amid (Upkeep.trivial config map) s P p 0 k := by
  obtain ⟨memory, cpu, allowed, past, n, hnew, hhistory, hmade, hfirst, hk, hfits⟩ := h
  obtain ⟨P, hknown⟩ := hnew.chronicle (Upkeep.trivial config memory) True.intro
    (fun _ _ => True.intro) hhistory hfits
  have htracks := hknown.tracks
  obtain ⟨p, hp, rfl, hunit⟩ := hknown.made_iff.mp hmade
  have hsite : s.site = (p.left + 4 + k).toUInt32 := by
    rw [hfirst, toUInt32_add, toUInt32_add]
    rfl
  have hready : s.machine.Ready := by
    refine htracks.1.clear.resolve_right (htracks.sole.1.not_gate hp hsite ?_)
    rw [hunit]
    exact hk
  exact ⟨memory, P, p, hunit, hready, htracks, hp, (position_of_stack hready.stack).trans hsite,
    (UInt32.add_zero _).symm, rfl⟩

theorem At.config_eq (h : s.At config inst k) : s.cpu.config = config := by
  obtain ⟨map, P, p, -, -, hamid⟩ := h.amid
  exact hamid.config_eq

theorem At.blank (h : s.At config inst k) :
    (View.blank s.asked.guest).On config.Own s.machine s.cpu.memory := by
  rintro a rfl
  refine ⟨?_, fun _ _ _ hv => by cases hv⟩
  rw [← h.config_eq]
  rfl

theorem At.follows (h : s.At config inst k) {f : Fragment} (hf : f.StandsAt (inst.body config) k)
    {α : Type} {x : Except OddAccess α} {P : Fact} {V : α → Fact} {i j : Nat}
    (hfollows : Follows (.accesses config fun e => x = .error e) i P f j x V)
    (hp : P s.machine s.cpu.memory) :
    ∃ t, ReflTransGen Advances s t ∧ t.cpu.outer = s.cpu.outer ∧
      ((∃ r, x = .ok r ∧ t.site = s.site + f.length.toUInt32 ∧ t.machine.state.stack = [] ∧
          V r t.machine t.cpu.memory) ∨
        ∃ e, x = .error e ∧ t.Fails inst e) := by
  obtain ⟨map, Q, p, hunit, hready, hamid⟩ := h.amid
  have hbody : p.unit.body config = inst.body config := by
    rw [hunit]
    rfl
  rw [← hbody] at hf
  obtain ⟨t, hcourse, hexits⟩ := Amid.course hf
    (hfollows (fun _ he => he) 0 s.machine s.cpu.memory hready ⟨trivial, hp⟩) hamid hready.stack
  have hpath : ReflTransGen Advances s t :=
    ReflTransGen.mono (fun _ _ hvisits => hvisits.step) _ _ hcourse
  refine ⟨t, hpath, ?_⟩
  cases hexits with
  | falls amid stack post =>
    obtain ⟨-, r, rfl, -, hlast⟩ := post
    refine ⟨amid.outer, .inl ⟨r, rfl, ?_, stack, hlast⟩⟩
    rw [amid.site stack, hamid.site hready.stack, ← Nat.add_assoc, toUInt32_add _ f.length]
  | goes _ _ _ needed => exact needed.elim
  | locates _ _ _ _ _ needed => exact needed.elim
  | @serves _ _ _ service amid op asking why =>
    refine ⟨amid.outer, .inr ?_⟩
    rcases why with ⟨-, hleave⟩ | ⟨-, houtcome, haccess, hforeseen⟩
    · exact hleave.elim
    · by_cases hodd : service.isWide = true ∧ service.address t.machine &&& 1 ≠ 0
      · refine ⟨_, hforeseen hodd.1 hodd.2, ?_, service, op, ?_⟩
        · rw [← amid.config_eq]
          rfl
        · rw [Session.served, t.asked.serve_odd t.machine (fun _ => rfl) hodd.1 hodd.2,
            Cpu.oddAccess, asking.called (.inl haccess) inst hunit]
          rfl
      · exact absurd (t.asked.serve_access t.machine.state haccess (fun _ => rfl) hodd) houtcome

end Session

/-- A run comes to a position in the code of an instruction that is compiled when it begins. -/
def Cpu.Reaches (cpu : Cpu) (n : CodePtr) (inst : Instruction) (count k : Nat)
    (Q : Session → Prop) : Prop :=
  (cpu.begin 100).ComesTo fun r =>
    (n, inst.address) ∈ r.cpu.store.entries.origins ∧
    r.cpu.view.instructionAt inst.address = inst ∧
    (Step.after count (.next r)).ComesTo fun s => s.site = n + 4 + k.toUInt32 ∧ Q s

namespace Cpu.Reaches

variable {cpu last : Cpu} {n : CodePtr} {inst : Instruction} {count k : Nat} {Q : Session → Prop}

instance [DecidablePred Q] : Decidable (cpu.Reaches n inst count k Q) :=
  inferInstanceAs (Decidable (Step.ComesTo _ _))

theorem made (h : last.Reaches n inst count k Q) {allowed : Operation → Prop} {past : List Moment}
    (hhistory : Moment.History allowed (.idle cpu) (.idle last) past)
    (hnone : ∀ m ∈ past, m.cpu.store.entries.origins = []) :
    ∃ r s past', (last.begin 100 = .next r ∧ ReflTransGen Session.Advances r s) ∧
      Moment.History allowed (.idle cpu) (.running s) past' ∧ MadeFrom past' n inst ∧
      s.site = n + 4 + k.toUInt32 ∧ Q s := by
  obtain ⟨r, hbegin, horigin, hinst, hrest⟩ := h.session
  obtain ⟨s, hfirst, hsite, hq⟩ := hrest.session
  obtain ⟨hfrom, hmade⟩ := hhistory.first hnone hbegin horigin
  rw [hinst] at hmade
  have hpath := Step.path_of_after (Cpu.begin_room hbegin) hfirst
  obtain ⟨past', hhistory', hlater⟩ := hfrom.along (Session.moments_of_advances allowed hpath)
  exact ⟨r, s, past', ⟨hbegin, hpath⟩, hhistory', hmade.later hlater, hsite, hq⟩

end Cpu.Reaches

end Dynarec68k
