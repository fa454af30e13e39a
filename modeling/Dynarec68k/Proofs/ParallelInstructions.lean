import Dynarec68k.Proofs.BuiltInstructions
import Dynarec68k.Proofs.ParallelRuns

namespace Dynarec68k

open Host Codegen Fragment

/-- Fragments of one piece of guest code under two assignments, in user mode if `u`. -/
structure Parallel (a b : RegisterAssignment) (u : Bool) (g : Grade) (f f' : Fragment) (h : Grade) :
    Prop where
  targets_eq : targets f = targets f'
  targets_even : ∀ x ∈ targets f, x &&& 1 = 0
  sim : ∀ file : RegisterFile, (u = true → file.supervisor = false) →
    Sim a b u (Within a b file u g) f f' (Within a b file u h)

theorem Within.flags {a b : RegisterAssignment} {file : RegisterFile} {u : Bool} {g : Grade}
    (m n : Machine) (h : Within a b file u g m n) : m.state.flags = n.state.flags :=
  h.alike.flags

namespace Parallel

variable {a b : RegisterAssignment} {u : Bool} {g h k : Grade} {e e' f f' : Fragment}

theorem quiet (hf : targets f = []) (hf' : targets f' = [])
    (hsim : ∀ file : RegisterFile, (u = true → file.supervisor = false) →
      Sim a b u (Within a b file u g) f f' (Within a b file u h)) : Parallel a b u g f f' h :=
  ⟨hf.trans hf'.symm, by simp [hf], hsim⟩

theorem nil : Parallel a b u g [] [] g :=
  .quiet rfl rfl fun _ _ => .nil

theorem weaken {g' h' : Grade} (hg : g'.Below g) (p : Parallel a b u g f f' h) (hh : h.Below h') :
    Parallel a b u g' f f' h' :=
  ⟨p.targets_eq, p.targets_even, fun file hfile => (p.sim file hfile).mono
    (fun _ _ hwithin => ⟨hwithin.alike.mono hg, hwithin.kept⟩)
    fun _ _ hwithin => ⟨hwithin.alike.mono hh, hwithin.kept⟩⟩

theorem relax (p : Parallel a b u g f f' .tight) : Parallel a b u g f f' .loose :=
  p.weaken (.refl g) (show Grade.tight.Below .loose from trivial)

theorem ended (p : Parallel a b u g f f' .stop) : Parallel a b u g f f' h :=
  p.weaken (.refl g) (by cases h <;> trivial)

theorem append (p : Parallel a b u g e e' h) (q : Parallel a b u h f f' k) :
    Parallel a b u g (e ++ f) (e' ++ f') k := by
  refine ⟨?_, ?_, fun file hfile =>
    (p.sim file hfile).append (congrArg List.length p.targets_eq) (q.sim file hfile)⟩
  · rw [targets_append, targets_append, p.targets_eq, q.targets_eq]
  · rw [targets_append]
    exact List.forall_mem_append.mpr ⟨p.targets_even, q.targets_even⟩

theorem op {o o' : Host.Op} (hop : Matching a b u g o o' h) :
    Parallel a b u g [.op o] [.op o'] h :=
  .quiet rfl rfl fun _ _ => .op hop

theorem asks {item : Item} (hask : Asks u item g h) (hitem : targets [item] = []) :
    Parallel a b u g [item] [item] h :=
  .quiet hitem hitem fun _ _ => .asking hask

theorem skipIf {t : Test} (p : Parallel a b u g f f' g) :
    Parallel a b u g (skipIf t f) (skipIf t f') g :=
  ⟨p.targets_eq, p.targets_even, fun file hfile => .skipIf Within.flags (fun _ _ hwithin _ => hwithin)
    ((p.sim file hfile).mono (fun _ _ hwithin => hwithin.1) fun _ _ hwithin => hwithin)⟩

theorem loop {t : Test} (p : Parallel a b u g f f' g) :
    Parallel a b u g (repeatWhile t f) (repeatWhile t f') g := by
  refine ⟨?_, ?_, fun file hfile => .loop (p.sim file hfile) Within.flags
    (fun _ _ hwithin _ => hwithin) fun _ _ hwithin _ => hwithin⟩
  · simp [repeatWhile, p.targets_eq]
  · simpa [repeatWhile] using p.targets_even

theorem flatMap {α : Type} (list : List α) {f f' : α → Fragment}
    (hf : ∀ x ∈ list, Parallel a b u g (f x) (f' x) g) :
    Parallel a b u g (list.flatMap f) (list.flatMap f') g := by
  induction list with
  | nil => exact .nil
  | cons x rest ih =>
    rw [List.flatMap_cons, List.flatMap_cons]
    exact (hf x List.mem_cons_self).append
      (ih fun y hy => hf y (List.mem_cons_of_mem _ hy))

theorem load_first (value : UInt32) :
    Parallel a b u .loose (load value Role.scratch1) (load value Role.scratch1) .tight :=
  op (.mov (s := .const value) (d := .scratch .first) trivial trivial)

theorem mov_first {s : Spot} (hs : s.Readable .loose .long) :
    Parallel a b u .loose (mov (s.place a) (.reg Role.scratch1) .long)
      (mov (s.place b) (.reg Role.scratch1) .long) .tight :=
  op (.mov (d := .scratch .first) hs trivial)

theorem charge (config : Config) (clocks : Nat) :
    Parallel a b u g (charge (config.assign a) clocks) (Codegen.charge (config.assign b) clocks)
      g := by
  unfold Codegen.charge
  split
  · exact .nil
  · have hlea := op (Matching.lea (a := a) (b := b) (u := u) (g := g) (s := .cycles) (d := .cycles)
      (k := (config.cycles clocks).toInt32) (fun heq => by cases heq))
    rwa [Grade.written, if_neg (fun hfirst => by cases hfirst.2.1)] at hlea

theorem jumpTo (address target : UInt32) :
    Parallel a b u .loose (jumpTo address target) (jumpTo address target) .stop := by
  unfold Codegen.jumpTo
  split
  · rename_i heven
    exact ⟨rfl, fun x hx => List.mem_singleton.mp hx ▸ heven, fun _ _ => .asking .goto⟩
  · exact ((load_first target).append (op (.mov (s := .const address) (d := .scratch .second)
      trivial trivial))).append (asks (.leave rfl (fun _ => rfl) fun _ => rfl) rfl)

theorem raise (vector : Nat) (pc : UInt32) :
    Parallel a b u .loose (raise vector pc) (raise vector pc) .stop :=
  ((load_first pc).append (op (.mov (s := .const vector.toUInt32) (d := .scratch .second) trivial
    trivial))).append (asks (.leave rfl (fun _ => rfl) fun _ => rfl) rfl)

theorem requireSupervisor (inst : Instruction) :
    Parallel a b u .loose (requireSupervisor inst) (requireSupervisor inst) .loose :=
  (op (.bit (s := .const 5) (d := .field RegisterFile.statusOffset) trivial
    ⟨by decide, by decide⟩ fun hne => absurd rfl hne)).append (.skipIf (raise _ _).ended)

variable (config : Config)

theorem loadCount (count : Fin 8) :
    Parallel a b u .loose (loadCount (config.assign a) ((config.assign a).dataPlace count))
      (loadCount (config.assign b) ((config.assign b).dataPlace count)) .loose := by
  have hread (s : Scratch) (hs : s ≠ .first) : (Spot.scratch s).Readable .loose .long :=
    fun h => absurd h hs
  have hmov {s : Spot} (d : Scratch) (hs : s.Readable .loose .long) (hd : d ≠ .first) :
      Parallel a b u .loose (mov (s.place a) (.reg d.reg) .long)
        (mov (s.place b) (.reg d.reg) .long) .loose := by
    have hop := op (Matching.mov (a := a) (b := b) (u := u) (d := .scratch d) hs trivial)
    rwa [Built.written_keep fun h => hd (Spot.scratch.inj h)] at hop
  have halu {s : Spot} (o : Alu) (d : Scratch) (hs : s.Readable .loose .long) (hd : d ≠ .first) :
      Parallel a b u .loose (alu o (s.place a) (.reg d.reg) .long)
        (alu o (s.place b) (.reg d.reg) .long) .loose :=
    op (.alu (d := .scratch d) hs (hread d hd) fun _ => trivial)
  have hticks (n : Nat) : Parallel a b u .loose
      (List.replicate n (alu .add (.reg Role.scratch4) (.reg Role.cycles) .long)).flatten
      (List.replicate n (alu .add (.reg Role.scratch4) (.reg Role.cycles) .long)).flatten
      .loose := by
    induction n with
    | zero => exact .nil
    | succ n ih => exact (halu (s := .scratch .fourth) .add .cycles (hread _ (by decide))
        (by decide)).append ih
  have hshift : Parallel a b u .loose (shiftBy .shl 1 (.reg Role.scratch4) .long)
      (shiftBy .shl 1 (.reg Role.scratch4) .long) .loose :=
    op (.shiftBy (d := .scratch .fourth) (hread _ (by decide)) trivial)
  exact (((((hmov (s := .data count) .temp trivial (by decide)).append
    (halu (s := .const 63) _ .temp trivial (by decide))).append
    (hmov (s := .scratch .temp) .fourth (hread _ (by decide)) (by decide))).append hshift).append
    (hticks _)).append (halu (s := .scratch .temp) _ .temp (hread _ (by decide)) (by decide))

theorem transferOne (move : ListMove) (reg : Fin 16) :
    Parallel a b u .loose (transferOne move ((config.assign a).generalPlace reg))
      (transferOne move ((config.assign b).generalPlace reg)) .loose := by
  have hload : Parallel a b u .loose
      (mov ((config.assign a).generalPlace reg) (.reg Role.scratch1) .long)
      (mov ((config.assign b).generalPlace reg) (.reg Role.scratch1) .long) .tight :=
    mov_first (s := .guest reg) trivial
  have hwalk (g : Grade) (o : Alu) : Parallel a b u g
      (alu o (.imm move.size.bytes.toUInt32) (.reg Role.scratch2) .long)
      (alu o (.imm move.size.bytes.toUInt32) (.reg Role.scratch2) .long) g :=
    op (.alu (s := .const _) (d := .scratch .second) trivial (fun h => by cases h) fun _ => trivial)
  have hread : Parallel a b u .tight (callRead move.size) (callRead move.size) .tight :=
    asks (.access (by cases move.size <;> rfl)) rfl
  have hwrite (lowFirst : Bool) : Parallel a b u .tight (callWrite move.size lowFirst)
      (callWrite move.size lowFirst) .tight :=
    asks (.access (by cases move.size <;> cases lowFirst <;> rfl)) rfl
  unfold Codegen.transferOne
  split
  · split
    · exact (((hwalk .loose .sub).append hload).append (hwrite _)).relax
    · exact ((hload.append (hwrite _)).append (hwalk .tight .add)).relax
  · have hextend : Parallel a b u .tight
        (if move.size = .word then movsx (.reg Role.scratch1) Role.scratch1 .word .long else [])
        (if move.size = .word then movsx (.reg Role.scratch1) Role.scratch1 .word .long else [])
        .tight := by
      split
      · exact op (.movsx (s := .scratch .first) (d := .first) fun _ => rfl)
      · exact .nil
    exact (((((mov_first (s := .scratch .second) fun h => by cases h).append hread).append
      hextend).append (op (.mov (s := .scratch .first) (d := .guest reg) (fun _ => rfl)
      trivial))).append (hwalk .tight .add)).relax

end Parallel

namespace Built

variable {config : Config} {inst : Instruction} {u : Bool} {s t : Mark} {n : Nat}
  {f : RegisterAssignment → Fragment}

theorem parallel (h : Built config inst u s n f t) (a b : RegisterAssignment) :
    Parallel a b u s.grade (f a) (f b) t.grade := by
  induction h with
  | nil => exact .nil
  | weaken _ hs ht _ ih => exact .weaken hs.grade ih ht.grade
  | append _ _ ih ih' => exact ih.append ih'
  | op hop => exact .op (hop a b)
  | charge clocks => exact .charge config clocks
  | pay => exact .charge config _
  | read => exact .asks (.access (by rename Size => size; cases size <;> rfl)) rfl
  | write lowFirst =>
    exact .asks (.access (by rename Size => size; cases size <;> cases lowFirst <;> rfl)) rfl
  | service hs hg hu => exact .asks (.service hs hg hu) rfl
  | leave hs hg hu => exact .asks (.leave hs hg hu) rfl
  | jumpTo => exact .jumpTo _ _
  | computed => exact .quiet rfl rfl fun _ _ => .computed fun _ _ hwithin => hwithin.alike
  | skipIf _ ih => exact .skipIf ih
  | choose _ _ ih ih' =>
    refine ⟨?_, ?_, fun file hfile => .choose Within.flags (congrArg List.length ih.targets_eq)
      ((ih.sim file hfile).mono (fun _ _ hwithin => hwithin.1) fun _ _ hwithin => hwithin)
      ((ih'.sim file hfile).mono (fun _ _ hwithin => hwithin.1) fun _ _ hwithin => hwithin)⟩
    · simp [choice, jumpOverIf, skip, ih.targets_eq, ih'.targets_eq]
    · simpa [choice, jumpOverIf, skip, or_imp, forall_and] using
        ⟨ih.targets_even, ih'.targets_even⟩
  | trapped hop _ _ _ ih ih' =>
    refine ⟨?_, ?_, fun file hfile => .trapped Within.flags (congrArg List.length ih.targets_eq)
      (hop a b).isData.1 (hop a b).isData.2 (fun _ _ hwithin => hwithin.perform (hop a b))
      Within.flags ((ih.sim file hfile).mono (fun _ _ hwithin => hwithin) Within.not_stop)
      ((ih'.sim file hfile).mono (fun _ _ hwithin => hwithin) Within.not_stop)⟩
    · simp [Fragment.trapped]
    · simpa [Fragment.trapped, or_imp, forall_and] using ⟨ih.targets_even, ih'.targets_even⟩
  | @privileged u _ _ _ _ _ _ ih =>
    cases u with
    | false => exact (Parallel.requireSupervisor inst).append ih
    | true =>
      have htargets := (Parallel.requireSupervisor (u := false) inst).append ih
      exact ⟨htargets.targets_eq, htargets.targets_even, fun file hfile =>
        (Sim.requireSupervisor inst (hfile rfl)).append rfl (.of_false fun _ _ hnever => hnever)⟩
  | counted _ _ ih =>
    exact .loop (ih.append (.op (.alu (s := .const 1) (d := .scratch .temp) trivial
      (fun h => by cases h) fun _ => trivial)))
  | count k => exact .loadCount config k
  | list move mask inline =>
    refine .append (h := .loose) ?_ ?_
    · split
      · exact .flatMap _ fun reg _ => .transferOne config move reg
      · exact .quiet (targets_transferLoop ..) (targets_transferLoop ..)
          fun _ _ => .transferLoop config move mask
    · split
      · exact .nil
      · exact ((Parallel.mov_first (s := .scratch .second) fun h => by cases h).append
          (.asks (.access rfl) rfl)).relax

end Built

end Dynarec68k
