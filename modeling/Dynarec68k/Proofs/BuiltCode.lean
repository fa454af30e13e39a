import Dynarec68k.Proofs.DecodedForm
import Dynarec68k.Proofs.GeneratedRuns

/-!
How the code of an instruction is put together. `Built` follows a fragment from its operations, calls
and branches up, for every register assignment at once, and says what is known before and after it: a
`Mark`. Three things are kept track of. How far hosts with different assignments agree; whether time
was spent; and whether data registers and memory are still as they were, so that an access that fails
leaves nothing behind.
-/

namespace Dynarec68k

open Host Codegen

variable {size target z : Size} {d : Spot}

/-- What is known of the time spent at a place. -/
inductive Account where
  | blank
  | paid
  | shut

def Account.Below : Account → Account → Prop
  | .shut, _ => True
  | .paid, .shut => False
  | .paid, _ => True
  | .blank, .blank => True
  | .blank, _ => False

/-- How much an instruction has done at a place. -/
inductive Progress where
  | intact
  | loose
  | shut
  deriving DecidableEq

def Progress.Below : Progress → Progress → Prop
  | .shut, _ => True
  | .intact, .shut => False
  | .intact, _ => True
  | .loose, .loose => True
  | .loose, _ => False

/-- What is stored at a spot leaves as much as is known, and the clock alone. -/
def Progress.Spares (progress : Progress) : Spot → Prop
  | .guest n => progress = .intact → 8 ≤ n.val
  | .scratch s => s ≠ .cycles
  | .field offset => 64 ≤ offset ∧ offset < registerFileSize
  | .const _ => True

/-- What is known at a place of the code. -/
structure Mark where
  grade : Grade
  account : Account
  progress : Progress

abbrev Mark.stop : Mark :=
  ⟨.stop, .shut, .shut⟩

/-- One mark says at least as much as another. -/
structure Mark.Below (s t : Mark) : Prop where
  grade : s.grade.Below t.grade
  account : s.account.Below t.account
  progress : s.progress.Below t.progress

theorem Account.Below.refl (g : Account) : g.Below g := by
  cases g <;> trivial

theorem Progress.Below.refl (g : Progress) : g.Below g := by
  cases g <;> trivial

theorem Mark.Below.refl (s : Mark) : s.Below s :=
  ⟨.refl _, .refl _, .refl _⟩

theorem Mark.stop_below (s : Mark) : Mark.stop.Below s :=
  ⟨trivial, trivial, trivial⟩

/-- A value of a size can be stored at a spot: it is writable, and nothing is lost by it. -/
structure Spot.Storable (u : Bool) (q : Progress) (size : Size) (d : Spot) : Prop where
  writable : d.Writable u size
  spared : q.Spares d

namespace Spot.Storable

variable {u : Bool} {q : Progress}

theorem scratch {s : Scratch} (h : s ≠ .cycles) : (Spot.scratch s).Storable u q size :=
  ⟨trivial, h⟩

theorem addr (n : Fin 8) : (Spot.addr n).Storable u q size :=
  ⟨trivial, fun _ => Nat.le_add_right 8 n.val⟩

theorem guest (n : Fin 16) : (Spot.guest n).Storable u .loose size :=
  ⟨trivial, fun h => by cases h⟩

theorem flag (flag : Flag) : (Spot.field (RegisterFile.flagOffset flag)).Storable u q .byte := by
  cases flag <;> exact ⟨⟨⟨by decide, by decide⟩, fun _ => by decide⟩, ⟨by decide, by decide⟩⟩

end Spot.Storable

/-- Where an instruction goes, if that can be told from the instruction. -/
def Instruction.knownTarget? (inst : Instruction) : Option UInt32 :=
  match inst.op with
  | .bcc | .bsr | .dbcc => some (branchTarget inst)
  | .jmp | .jsr => Codegen.staticTarget? inst.src inst.pcBase
  | _ => none

/-- Clocks of a service that gives back control, at most. -/
def Host.Service.mostClocks : Service → Nat
  | .read8 | .read16 | .write8 | .write16 => 4
  | .read32 | .write32 | .write32LowFirst => 8
  | .mulu | .muls => 70
  | .divu | .divs => 156
  | _ => 0

/-- Clocks of a service that gives back control, at least. -/
def Host.Service.leastClocks : Service → Nat
  | .mulu | .muls => 38
  | .divu | .divs => 10
  | _ => 0

/-- Services that spend time before control goes elsewhere, or end the run. -/
def Host.Service.delays : Service → Bool
  | .exception => true
  | .fetchError => true
  | .outOfBounds => true
  | _ => false

/-- Code of an instruction under every assignment, in user mode if `u`: what is known before it, the
clocks it spends at most, and what is known behind it. -/
inductive Built (config : Config) (inst : Instruction) :
    Bool → Mark → Nat → (RegisterAssignment → Fragment) → Mark → Prop where
  | nil {u : Bool} {s : Mark} : Built config inst u s 0 (fun _ => []) s
  | weaken {u : Bool} {s s' t t' : Mark} {n n' : Nat} {f : RegisterAssignment → Fragment}
      (p : Built config inst u s n f t) (hs : s'.Below s) (ht : t.Below t') (hn : n ≤ n') :
      Built config inst u s' n' f t'
  | append {u : Bool} {s t r : Mark} {n n' : Nat} {e f : RegisterAssignment → Fragment}
      (p : Built config inst u s n e t) (q : Built config inst u t n' f r) :
      Built config inst u s (n + n') (fun a => e a ++ f a) r
  | op {u : Bool} {g h : Grade} {p : Account} {q : Progress} {o : RegisterAssignment → Host.Op}
      (hop : ∀ a b, Matching a b u g (o a) (o b) h)
      (hstore : ∀ a place size, (o a).writes = some (place, size) →
        ∃ d : Spot, place = d.place a ∧ q.Spares d) :
      Built config inst u ⟨g, p, q⟩ 0 (fun a => [.op (o a)]) ⟨h, p, q⟩
  | charge {u : Bool} {s : Mark} (clocks : Nat) :
      Built config inst u s clocks (fun a => charge (config.assign a) clocks) s
  /-- A charge that is one settles the account. -/
  | pay {u : Bool} {g : Grade} {p : Account} {q : Progress} {clocks n : Nat} (hpositive : 0 < clocks)
      (hle : clocks ≤ n) (hn : n < 1024) :
      Built config inst u ⟨g, p, q⟩ n (fun a => charge (config.assign a) clocks) ⟨g, .paid, q⟩
  /-- Nothing was done yet that a failing access would have to undo. -/
  | read {u : Bool} {p : Account} {q : Progress} {size : Size} (h : size = .byte ∨ q = .intact) :
      Built config inst u ⟨.tight, p, q⟩ 8 (fun _ => callRead size) ⟨.tight, p, q⟩
  | write {u : Bool} {p : Account} {q : Progress} {size : Size} (lowFirst : Bool)
      (h : size = .byte ∨ q = .intact) :
      Built config inst u ⟨.tight, p, q⟩ 8 (fun _ => callWrite size lowFirst) ⟨.tight, p, .loose⟩
  | service {u : Bool} {g : Grade} {p : Account} {q : Progress} {s : Service}
      (hs : s.comesBack = true) (hg : s.takesFirst = true → g = .tight)
      (hu : u = true → s.privileged = false) :
      Built config inst u ⟨g, p, q⟩ s.mostClocks (fun _ => service s)
        ⟨g, if 0 < s.leastClocks then .paid else p, q⟩
  | leave {u : Bool} {g : Grade} {p : Account} {q : Progress} {s : Service} (hs : s.goesAway = true)
      (hg : s.takesFirst = true → g = .tight) (hu : u = true → s.privileged = false)
      (hp : s.delays = true ∨ p = .paid) (hfetch : s ≠ .fetchError) :
      Built config inst u ⟨g, p, q⟩ 0 (fun _ => service s) .stop
  | jumpTo {u : Bool} {q : Progress} {target : UInt32} (h : inst.knownTarget? = some target) :
      Built config inst u ⟨.loose, .paid, q⟩ 0 (fun _ => jumpTo inst.address target) .stop
  | computed {u : Bool} {q : Progress} :
      Built config inst u ⟨.tight, .paid, q⟩ 0 (fun _ => jumpComputed) .stop
  | skipIf {u : Bool} {s : Mark} {n : Nat} {t : Test} {f : RegisterAssignment → Fragment}
      (p : Built config inst u s n f s) : Built config inst u s n (fun a => skipIf t (f a)) s
  | choose {u : Bool} {s r : Mark} {n : Nat} {t : Test} {e f : RegisterAssignment → Fragment}
      (p : Built config inst u s n e r) (q : Built config inst u s n f r) :
      Built config inst u s n (fun a => Fragment.choice t (e a) (f a)) r
  | trapped {u : Bool} {g : Grade} {p : Account} {q : Progress} {t r : Test}
      {o : RegisterAssignment → Host.Op} {e f : Fragment}
      (hop : ∀ a b, Matching a b u g (o a) (o b) g) (hstore : ∀ a, (o a).writes = none)
      (he : Built config inst u ⟨g, p, q⟩ 0 (fun _ => e) .stop)
      (hf : Built config inst u ⟨g, p, q⟩ 0 (fun _ => f) .stop) :
      Built config inst u ⟨g, p, q⟩ 0 (fun a => Fragment.trapped t r (o a) e f) ⟨g, p, q⟩
  /-- In user mode nothing behind the check for supervisor mode is reached. -/
  | privileged {u : Bool} {p : Account} {q : Progress} {t : Mark} {n : Nat}
      {f : RegisterAssignment → Fragment} (h : Built config inst false ⟨.loose, p, q⟩ n f t) :
      Built config inst u ⟨.loose, p, q⟩ n (fun a => requireSupervisor inst ++ f a) t
  /-- Shifts one place at a time, until the count is zero. -/
  | counted {u : Bool} {g : Grade} {p : Account} {q : Progress} {d : Spot} {size : Size}
      (hd : d ≠ .scratch .temp)
      (h : Built config inst u ⟨g, p, q⟩ 0 (fun a => aslStep (d.place a) size) ⟨g, p, q⟩) :
      Built config inst u ⟨g, p, q⟩ 0 (fun a => repeatWhile .notEqual
        (aslStep (d.place a) size ++ alu .sub (.imm 1) (.reg Role.temp) .long)) ⟨g, p, q⟩
  /-- Two clocks for each of at most sixty-three places. -/
  | count {u : Bool} {p : Account} {q : Progress} (n : Fin 8) :
      Built config inst u ⟨.loose, p, q⟩ 126
        (fun a => loadCount (config.assign a) ((config.assign a).dataPlace n)) ⟨.loose, p, q⟩
  /-- A list of registers, and the word that a load reads past it. The first access settles it for
  all of them. -/
  | list {u : Bool} {p : Account} (move : ListMove) (mask : UInt16) (inline : Bool)
      (hsize : move.size ≠ .byte) :
      Built config inst u ⟨.loose, p, .intact⟩ 136
        (fun a => (if inline then transferStraight (config.assign a) move mask
            else transferLoop (config.assign a) move mask) ++
          if move.toMemory then []
          else mov (.reg Role.scratch2) (.reg Role.scratch1) .long ++ callRead .word)
        ⟨.loose, p, .loose⟩

namespace Built

/-- Code that spends no time and leaves what is known as it is. -/
abbrev Keeps (config : Config) (inst : Instruction) (u : Bool) (s : Mark)
    (f : RegisterAssignment → Fragment) : Prop :=
  Built config inst u s 0 f s

variable {config : Config} {inst : Instruction} {u : Bool} {s t : Mark} {g : Grade} {p : Account}
  {q : Progress} {n n' : Nat} {f f' : RegisterAssignment → Fragment} (o : Alu) (value : UInt32)

theorem mono (h : Built config inst u s n f t) (hn : n ≤ n') : Built config inst u s n' f t :=
  h.weaken (.refl s) (.refl t) hn

theorem relax (h : Built config inst u s n f ⟨.tight, p, q⟩) :
    Built config inst u s n f ⟨.loose, p, q⟩ :=
  h.weaken (.refl s) ⟨trivial, .refl p, .refl q⟩ (Nat.le_refl n)

theorem strict (h : Built config inst u ⟨.loose, p, q⟩ n f t) :
    Built config inst u ⟨.tight, p, q⟩ n f t :=
  h.weaken ⟨trivial, .refl p, .refl q⟩ (.refl t) (Nat.le_refl n)

theorem loosen (h : Built config inst u s n f ⟨g, p, q⟩) :
    Built config inst u s n f ⟨g, p, .loose⟩ :=
  h.weaken (.refl s) ⟨.refl g, .refl p, by cases q <;> trivial⟩ (Nat.le_refl n)

theorem anywhere (h : Built config inst u ⟨g, p, .loose⟩ n f t) :
    Built config inst u ⟨g, p, q⟩ n f t :=
  h.weaken ⟨.refl g, .refl p, by cases q <;> trivial⟩ (.refl t) (Nat.le_refl n)

theorem ended (h : Built config inst u s n f .stop) : Built config inst u s n f t :=
  h.weaken (.refl s) t.stop_below (Nat.le_refl n)

theorem ite {c : Prop} [Decidable c] (h : c → Built config inst u s n f t)
    (h' : ¬c → Built config inst u s n f' t) :
    Built config inst u s n (fun a => if c then f a else f' a) t := by
  by_cases hc : c
  · simp only [if_pos hc]
    exact h hc
  · simp only [if_neg hc]
    exact h' hc

theorem flatMap {α : Type} {l : List α} {f : RegisterAssignment → α → Fragment}
    (h : ∀ x ∈ l, Built config inst u s n (fun a => f a x) s) :
    Built config inst u s (l.length * n) (fun a => l.flatMap (f a)) s := by
  induction l with
  | nil =>
    rw [List.length_nil, Nat.zero_mul]
    exact nil
  | cons x l ih =>
    simp only [List.flatMap_cons, List.length_cons, Nat.add_mul, Nat.one_mul]
    rw [Nat.add_comm]
    exact (h x List.mem_cons_self).append (ih fun y hy => h y (List.mem_cons_of_mem x hy))

theorem replicate (count : Nat) (h : Built config inst u s 0 f s) :
    Keeps config inst u s fun a => (List.replicate count (f a)).flatten := by
  induction count with
  | zero => exact nil
  | succ count ih =>
    simp only [List.replicate_succ, List.flatten_cons]
    exact h.append ih

theorem stored {o : RegisterAssignment → Host.Op} {h : Grade}
    (hop : ∀ a b, Matching a b u g (o a) (o b) h)
    (hwrites : ∀ a, (o a).writes = some (d.place a, size)) (hd : q.Spares d) :
    Built config inst u ⟨g, p, q⟩ 0 (fun a => [.op (o a)]) ⟨h, p, q⟩ := by
  refine op hop fun a place size' hplace => ?_
  cases (hwrites a).symm.trans hplace
  exact ⟨d, rfl, hd⟩

theorem unstored {o : RegisterAssignment → Host.Op} (hop : ∀ a b, Matching a b u g (o a) (o b) g)
    (hwrites : ∀ a, (o a).writes = none) :
    Keeps config inst u ⟨g, p, q⟩ fun a => [.op (o a)] := by
  refine op hop fun a place size hplace => ?_
  cases (hwrites a).symm.trans hplace

theorem written_keep (hd : d ≠ .scratch .first) : g.written d size = g := by
  rw [Grade.written, if_neg fun hfirst => hd hfirst.2.1]

theorem mov {s : Spot} (hs : s.Readable g size) (hd : d.Storable u q size)
    (hne : d ≠ .scratch .first) :
    Keeps config inst u ⟨g, p, q⟩ fun a => mov (s.place a) (d.place a) size := by
  have hmov : Built config inst u ⟨g, p, q⟩ 0 (fun a => Codegen.mov (s.place a) (d.place a) size)
      ⟨g.written d size, p, q⟩ :=
    stored (fun _ _ => .mov hs hd.writable) (fun _ => rfl) hd.spared
  rwa [written_keep hne] at hmov

theorem put {s : Spot} (n : Fin 16) (hs : s.Readable g size) (hd : (Spot.guest n).Storable u q size) :
    Keeps config inst u ⟨g, p, q⟩ fun a => Codegen.mov (s.place a) (a.place n.val) size :=
  mov (d := .guest n) hs hd fun h => by cases h

theorem copy {s : Spot} {d : Scratch} (hs : s.Readable g z) (hd : d ≠ .cycles ∧ d ≠ .first) :
    Keeps config inst u ⟨g, p, q⟩ fun a => Codegen.mov (s.place a) (.reg d.reg) z :=
  mov (d := .scratch d) hs (.scratch hd.1) fun h => hd.2 (Spot.scratch.inj h)

theorem copyFirst {s : Spot} (hs : s.Readable .loose .long) :
    Built config inst u ⟨.loose, p, q⟩ 0
      (fun a => Codegen.mov (s.place a) (.reg Role.scratch1) .long) ⟨.tight, p, q⟩ :=
  stored (d := .scratch .first) (fun _ _ => .mov (d := .scratch .first) hs trivial) (fun _ => rfl)
    (show Scratch.first ≠ .cycles by decide)

theorem load {d : Scratch} (hd : d ≠ .cycles ∧ d ≠ .first) :
    Keeps config inst u ⟨g, p, q⟩ fun _ => load value d.reg :=
  copy (s := .const value) trivial hd

theorem loadFirst :
    Built config inst u ⟨.loose, p, q⟩ 0 (fun _ => Codegen.load value Role.scratch1)
      ⟨.tight, p, q⟩ :=
  copyFirst (s := .const value) trivial

theorem movsx {s : Spot} {d : Scratch} (hs : s.Readable g size) (hd : d ≠ .cycles ∧ d ≠ .first) :
    Keeps config inst u ⟨g, p, q⟩ fun a => movsx (s.place a) d.reg size target := by
  have hmov : Built config inst u ⟨g, p, q⟩ 0 (fun a => Codegen.movsx (s.place a) d.reg size target)
      ⟨g.written (.scratch d) target, p, q⟩ :=
    stored (d := .scratch d) (fun _ _ => .movsx hs) (fun _ => rfl) hd.1
  rwa [written_keep fun h => hd.2 (Spot.scratch.inj h)] at hmov

theorem movsxFirst {s : Spot} (hs : s.Readable g size) (hg : g ≠ .stop) :
    Built config inst u ⟨g, p, q⟩ 0 (fun a => Codegen.movsx (s.place a) Role.scratch1 size .long)
      ⟨.tight, p, q⟩ := by
  have hmov : Built config inst u ⟨g, p, q⟩ 0
      (fun a => Codegen.movsx (s.place a) Role.scratch1 size .long)
      ⟨g.written (.scratch .first) .long, p, q⟩ :=
    stored (d := .scratch .first) (fun _ _ => .movsx (d := .first) hs) (fun _ => rfl)
      (show Scratch.first ≠ .cycles by decide)
  cases g with
  | stop => exact absurd rfl hg
  | _ => exact hmov

theorem movzx {s : Spot} {d : Scratch} (hs : s.Readable g size) (hd : d ≠ .cycles ∧ d ≠ .first) :
    Keeps config inst u ⟨g, p, q⟩ fun a => movzx (s.place a) d.reg size target := by
  have hmov : Built config inst u ⟨g, p, q⟩ 0 (fun a => Codegen.movzx (s.place a) d.reg size target)
      ⟨g.written (.scratch d) target, p, q⟩ :=
    stored (d := .scratch d) (fun _ _ => .movzx hs) (fun _ => rfl) hd.1
  rwa [written_keep fun h => hd.2 (Spot.scratch.inj h)] at hmov

theorem movzxFirst {s : Spot} (hs : s.Readable .loose size) :
    Built config inst u ⟨.loose, p, q⟩ 0
      (fun a => Codegen.movzx (s.place a) Role.scratch1 size .long) ⟨.tight, p, q⟩ :=
  stored (d := .scratch .first) (fun _ _ => .movzx (d := .first) hs) (fun _ => rfl)
    (show Scratch.first ≠ .cycles by decide)

theorem compare {o : Alu} {s : Spot} (ho : o.stores = false) (hs : s.Readable g z)
    (hd : d.Readable g z) :
    Keeps config inst u ⟨g, p, q⟩ fun a => alu o (s.place a) (d.place a) z :=
  unstored (fun _ _ => .alu hs hd fun hstores => absurd (hstores.symm.trans ho) (by decide))
    fun a => by rw [Host.Op.writes, ho]; rfl

theorem alu {o : Alu} {s : Spot} (hs : s.Readable g size) (hd : d.Readable g size)
    (hw : d.Storable u q size) :
    Keeps config inst u ⟨g, p, q⟩ fun a => alu o (s.place a) (d.place a) size := by
  cases hstores : o.stores with
  | true =>
    exact stored (fun _ _ => .alu hs hd fun _ => hw.writable)
      (fun a => by rw [Host.Op.writes, if_pos hstores]) hw.spared
  | false => exact compare hstores hs hd

theorem aluAddr (n : Fin 8) :
    Keeps config inst u ⟨g, p, q⟩ fun a => Codegen.alu o (.imm value) (a.place (8 + n.val)) .long :=
  alu (s := .const value) (d := .addr n) trivial trivial (.addr n)

theorem aluScratch {s : Spot} {d : Scratch} (hs : s.Readable g size) (hd : d = .first → g = .tight)
    (hclock : d ≠ .cycles) :
    Keeps config inst u ⟨g, p, q⟩ fun a => Codegen.alu o (s.place a) (.reg d.reg) size :=
  alu (d := .scratch d) hs hd (.scratch hclock)

theorem unary {o : Unary} (hd : d.Readable g size) (hw : d.Storable u q size) :
    Keeps config inst u ⟨g, p, q⟩ fun a => unary o (d.place a) size :=
  stored (fun _ _ => .unary hd hw.writable) (fun _ => rfl) hw.spared

theorem shiftBy {o : Shift} {k : Nat} (hd : d.Readable g size) (hw : d.Storable u q size) :
    Keeps config inst u ⟨g, p, q⟩ fun a => shiftBy o k (d.place a) size :=
  stored (fun _ _ => .shiftBy hd hw.writable) (fun _ => rfl) hw.spared

theorem bitTest {s : Spot} (hs : s.Readable g .long) (hd : d.Readable g size) :
    Keeps config inst u ⟨g, p, q⟩ fun a => bit .test (s.place a) (d.place a) size :=
  unstored (fun _ _ => .bit hs hd fun hne => absurd rfl hne) fun _ => rfl

theorem bit {o : BitOp} {s : Spot} (hs : s.Readable g .long) (hd : d.Readable g size)
    (hw : o ≠ .test → d.Storable u q size) :
    Keeps config inst u ⟨g, p, q⟩ fun a => bit o (s.place a) (d.place a) size := by
  by_cases htest : o = .test
  · subst htest
    exact bitTest hs hd
  · exact stored (fun _ _ => .bit hs hd fun hne => (hw hne).writable)
      (fun a => by rw [Host.Op.writes, if_neg htest]) (hw htest).spared

theorem setTest {t : Test} (hd : d.Storable u q .byte) :
    Keeps config inst u ⟨g, p, q⟩ fun a => setTest t (d.place a) :=
  stored (fun _ _ => .setTest hd.writable) (fun _ => rfl) hd.spared

theorem charged {k : Nat} (h : 0 < k ∧ k ≤ 32) :
    Built config inst u ⟨g, p, q⟩ 32 (fun a => Codegen.charge (config.assign a) k)
      ⟨g, .paid, q⟩ :=
  pay h.1 h.2 (by decide)

end Built

end Dynarec68k
