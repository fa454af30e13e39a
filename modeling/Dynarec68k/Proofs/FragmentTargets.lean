import Dynarec68k.Proofs.Agreement

namespace Dynarec68k

open Host Codegen

namespace Grade

/-- Agreement as far as one grade is agreement as far as another. -/
def Below : Grade → Grade → Prop
  | .stop, _ => True
  | .tight, .stop => False
  | .tight, _ => True
  | .loose, .loose => True
  | .loose, _ => False

theorem Below.refl (g : Grade) : g.Below g := by
  cases g <;> trivial

end Grade

theorem Alike.mono {g h : Grade} {a b : RegisterAssignment} {m n : Machine}
    (halike : Alike g a b m n) (hle : g.Below h) : Alike h a b m n := by
  cases g <;> cases h <;>
    first
      | exact halike
      | exact halike.loosen
      | exact absurd rfl halike.reached
      | exact absurd hle id

namespace Host.Service

/-- Services that fragments ask for in the middle of an instruction. -/
def comesBack : Service → Bool
  | .setSr => true
  | .reset => true
  | .mulu => true
  | .muls => true
  | .divu => true
  | .divs => true
  | .abcd => true
  | .sbcd => true
  | _ => false

/-- Services after which code never goes on where it was. -/
def goesAway : Service → Bool
  | .outOfBounds => true
  | .exception => true
  | .fetchError => true
  | .returnFromException => true
  | .stop => true
  | _ => false

/-- Services that take an argument in the first scratch register. -/
def takesFirst : Service → Bool
  | .reset => false
  | .returnFromException => false
  | _ => true

/-- Services that can change the upper byte of the status register without an exception. -/
def privileged : Service → Bool
  | .setSr => true
  | .returnFromException => true
  | .stop => true
  | _ => false

end Host.Service

/-- Gates of guest memory. -/
def Gate.isAccess : Gate → Bool
  | .read8 => true
  | .read16 => true
  | .read32 => true
  | .write8 => true
  | .write16 => true
  | .write32 => true
  | .write32LowFirst => true
  | _ => false

/-- The same settings with another register assignment. -/
def Config.assign (config : Config) (assignment : RegisterAssignment) : Config :=
  { config with registerAssignment := assignment }

namespace Fragment

/-- The guest addresses a fragment jumps to. -/
def targets (fragment : Fragment) : List UInt32 :=
  fragment.filterMap fun item =>
    match item with
    | .goto target => some target
    | _ => none

@[simp] theorem targets_nil : targets [] = [] :=
  rfl

@[simp] theorem targets_append (f g : Fragment) :
    targets (f ++ g) = targets f ++ targets g :=
  List.filterMap_append

@[simp] theorem targets_op (op : Host.Op) (rest : Fragment) :
    targets (.op op :: rest) = targets rest :=
  rfl

@[simp] theorem targets_call (gate : Gate) (rest : Fragment) :
    targets (.call gate :: rest) = targets rest :=
  rfl

@[simp] theorem targets_goto (target : UInt32) (rest : Fragment) :
    targets (.goto target :: rest) = target :: targets rest :=
  rfl

theorem targets_mapped (mapped : List (Nat × Reg)) (move : Nat → Reg → Host.Op) :
    targets (mapped.flatMap fun (guest, host) => [.op (move guest host)]) = [] := by
  induction mapped with
  | nil => rfl
  | cons entry rest ih =>
    rw [List.flatMap_cons, targets_append, ih]
    rfl

theorem targets_spillMapped (config : Config) :
    targets (spillMapped config) = [] :=
  targets_mapped _ fun guest host =>
    .mov (.reg host) (.slot Role.context (Int32.ofNat (RegisterFile.generalOffset guest))) .long

theorem targets_reloadMapped (config : Config) :
    targets (reloadMapped config) = [] :=
  targets_mapped _ fun guest host =>
    .mov (.slot Role.context (Int32.ofNat (RegisterFile.generalOffset guest))) (.reg host) .long

theorem targets_transferOne (move : ListMove) (slot : Place) :
    targets (transferOne move slot) = [] := by
  obtain ⟨size, toMemory, descending⟩ := move
  cases toMemory <;> cases descending <;> cases size <;> rfl

theorem targets_transferLoop (config : Config) (move : ListMove) (mask : UInt16) :
    targets (transferLoop config move mask) = [] := by
  have hreload : targets
      (if move.toMemory then [] else reloadMapped config) = [] := by
    split
    · rfl
    · exact targets_reloadMapped config
  simp [transferLoop, repeatWhile, skipIf, jumpOverIf,
    shiftBy, alu, load, mov, lea, targets_spillMapped,
    targets_transferOne, hreload]

end Fragment

end Dynarec68k
