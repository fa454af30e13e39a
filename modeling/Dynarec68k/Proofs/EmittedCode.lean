import Dynarec68k.Cpu.Run
import Mathlib.Algebra.Ring.Nat

namespace Dynarec68k

open Host EntryTable CodeBuffer

variable (code : CodeBuffer) {n : Nat}

namespace Host

theorem toUInt32_add (n k : Nat) : (n + k).toUInt32 = n.toUInt32 + k.toUInt32 :=
  UInt32.ofNat_add n k

theorem toUInt32_succ (n : Nat) : n.toUInt32 + 1 = (n + 1).toUInt32 :=
  (toUInt32_add n 1).symm

theorem branch_relativeTo (site target : CodePtr) :
    site + 1 + (relativeTo site target).toUInt32 = target := by
  rw [relativeTo, UInt32.toUInt32_toInt32, UInt32.add_comm, UInt32.sub_add_cancel]

namespace CodeBuffer

def position (code : CodeBuffer) : Nat :=
  code.cursor.getD code.ops.size

theorem here_eq : code.here = code.position.toUInt32 :=
  rfl

theorem position_emit (op : Op) : (code.emit op).position = code.position + 1 := by
  obtain ⟨ops, cursor, overwritten⟩ := code
  cases cursor with
  | none => exact Array.size_push _
  | some site => rfl

theorem size_emitAll (ops : List Op) : code.ops.size ≤ (code.emitAll ops).ops.size := by
  induction ops generalizing code with
  | nil => exact Nat.le_refl _
  | cons op rest ih =>
    refine Nat.le_trans ?_ (ih (code.emit op))
    unfold emit
    split
    · simp
    · split <;> simp [replace, noteOverwritten]

theorem op?_toUInt32 (h : n < 2 ^ 32) : code.op? n.toUInt32 = code.ops[n]? := by
  have hn : n.toUInt32.toNat = n := by
    rw [Nat.toUInt32, UInt32.toNat_ofNat', Nat.mod_eq_of_lt h]
  rw [op?, hn]

theorem emitAll_append {code : CodeBuffer} (h : code.cursor = none) (ops : List Op) :
    code.emitAll ops = { code with ops := code.ops ++ ops.toArray } := by
  induction ops generalizing code with
  | nil => simp [emitAll]
  | cons op rest ih =>
    have hemit : code.emit op = { code with ops := code.ops.push op } := by
      rw [emit, h]
    have hnext : (code.emit op).cursor = none := by
      rw [hemit, h]
    change (code.emit op).emitAll rest = _
    rw [ih hnext, hemit]
    simp [h]

/-- One buffer is another with `ops` written over what stood from position `n` on. -/
structure Overwritten (code : CodeBuffer) (n : Nat) (ops : List Op) (written : CodeBuffer) :
    Prop where
  size : written.ops.size = code.ops.size
  inside : ∀ i < ops.length, written.ops[n + i]? = ops[i]?
  outside : ∀ i, i < n ∨ n + ops.length ≤ i → written.ops[i]? = code.ops[i]?

theorem emitAll_overwritten (h : code.cursor = some n) (ops : List Op)
    (hin : n + ops.length ≤ code.ops.size) :
    Overwritten code n ops (code.emitAll ops) ∧
      (code.emitAll ops).cursor = some (n + ops.length) := by
  induction ops generalizing code n with
  | nil =>
    refine ⟨⟨rfl, fun i hi => absurd hi (Nat.not_lt_zero i), fun _ _ => rfl⟩, ?_⟩
    exact h
  | cons op rest ih =>
    rw [List.length_cons] at hin
    have hlt : n < code.ops.size := by omega
    have hops : (code.emit op).ops = code.ops.setIfInBounds n op := by
      simp [emit, h, hlt, replace, noteOverwritten]
    have hcursor : (code.emit op).cursor = some (n + 1) := by
      simp [emit, h]
    have hsize : (code.emit op).ops.size = code.ops.size := by
      rw [hops, Array.size_setIfInBounds]
    obtain ⟨⟨size, inside, outside⟩, hlast⟩ := ih _ hcursor (by omega)
    change Overwritten code n (op :: rest) ((code.emit op).emitAll rest) ∧
      ((code.emit op).emitAll rest).cursor = _
    refine ⟨⟨size.trans hsize, fun i hi => ?_, fun i hi => ?_⟩, ?_⟩
    · cases i with
      | zero =>
        rw [Nat.add_zero, outside n (.inl (Nat.lt_succ_self n)), hops,
          Array.getElem?_setIfInBounds_self_of_lt hlt, List.getElem?_cons_zero]
      | succ i =>
        rw [List.length_cons] at hi
        have hi' : n + 1 + i = n + (i + 1) := by omega
        rw [← hi', inside i (by omega), List.getElem?_cons_succ]
    · rw [List.length_cons] at hi
      rw [outside i (by omega), hops, Array.getElem?_setIfInBounds_ne (by omega)]
    · rw [hlast, List.length_cons]
      congr 1
      omega

theorem patchBranch_overwritten {code : CodeBuffer} (hn : n < 2 ^ 32) {rel : Int32}
    (hjump : code.ops[n]? = some (.jump rel)) (target : CodePtr) :
    Overwritten code n [.jump (relativeTo n.toUInt32 target)]
        (code.patchBranch n.toUInt32 target) ∧
      (code.patchBranch n.toUInt32 target).cursor = code.cursor := by
  obtain ⟨hlt, -⟩ := Array.getElem?_eq_some_iff.mp hjump
  have hnat : n.toUInt32.toNat = n := by
    rw [Nat.toUInt32, UInt32.toNat_ofNat', Nat.mod_eq_of_lt hn]
  have hpatch : code.patchBranch n.toUInt32 target =
      code.replace n (.jump (relativeTo n.toUInt32 target)) := by
    simp only [patchBranch, op?_toUInt32 code hn, hjump, hnat]
  rw [hpatch]
  refine ⟨⟨Array.size_setIfInBounds, fun i hi => ?_, fun i hi => ?_⟩, rfl⟩
  · obtain rfl : i = 0 := by
      simpa using hi
    exact Array.getElem?_setIfInBounds_self_of_lt hlt
  · exact Array.getElem?_setIfInBounds_ne (by
      rw [List.length_singleton] at hi
      omega)

end CodeBuffer

end Host

namespace EntryTable

variable (entries : EntryTable) (canonical : UInt32 → UInt32)

def opOf (position : Nat) : Item → Host.Op
  | .op op => op
  | .call gate => .call (relativeTo position.toUInt32 gate.entry)
  | .goto target =>
    .jump (match entries.lookup (canonical target) with
      | some native => relativeTo position.toUInt32 native
      | none => 0)

def render (position : Nat) : Fragment → List Host.Op
  | [] => []
  | item :: rest => entries.opOf canonical position item :: render (position + 1) rest

def waitOf (position : Nat) : Item → List PendingLink
  | .goto target =>
    match entries.lookup (canonical target) with
    | some _ => []
    | none => [⟨canonical target, position.toUInt32⟩]
  | _ => []

def waits (position : Nat) : Fragment → List PendingLink
  | [] => []
  | item :: rest => entries.waitOf canonical position item ++ waits (position + 1) rest

theorem length_render (position : Nat) (fragment : Fragment) :
    (entries.render canonical position fragment).length = fragment.length := by
  induction fragment generalizing position with
  | nil => rfl
  | cons item rest ih => rw [render, List.length_cons, List.length_cons, ih]

theorem getElem?_render (position : Nat) (fragment : Fragment) (i : Nat) :
    (entries.render canonical position fragment)[i]? =
      (fragment[i]?).map (entries.opOf canonical (position + i)) := by
  induction fragment generalizing position i with
  | nil => rfl
  | cons item rest ih =>
    cases i with
    | zero => rfl
    | succ i =>
      rw [render, List.getElem?_cons_succ, List.getElem?_cons_succ, ih]
      congr 2
      omega

end EntryTable

namespace CodeStore

variable (store : CodeStore) (canonical : UInt32 → UInt32)

theorem emitItem_eq (item : Item) :
    emitItem canonical store item =
      { store with
        code := store.code.emit (store.entries.opOf canonical store.code.position item)
        pending := store.pending ++
          (store.entries.waitOf canonical store.code.position item).toArray } := by
  cases item with
  | op op => simp [emitItem, emit, opOf, waitOf]
  | call gate =>
    simp [emitItem, emitCall, relative, opOf,
      waitOf, here_eq]
  | goto target =>
    cases hlookup : store.entries.lookup (canonical target) <;>
      simp [emitItem, emitLink, lookup, opOf, waitOf, hlookup,
        emitJump, relative, here_eq]

theorem emitFragment_eq (fragment : Fragment) :
    store.emitFragment canonical fragment =
      { store with
        code := store.code.emitAll
          (store.entries.render canonical store.code.position fragment)
        pending := store.pending ++
          (store.entries.waits canonical store.code.position fragment).toArray } := by
  induction fragment generalizing store with
  | nil => simp [emitFragment, render, waits, emitAll]
  | cons item rest ih =>
    change (emitItem canonical store item).emitFragment canonical rest = _
    rw [ih, emitItem_eq]
    simp [position_emit, render, waits, emitAll]

theorem waits_of_targets {fragment : Fragment} (h : ∀ target, .goto target ∉ fragment)
    (entries : EntryTable) (position : Nat) : entries.waits canonical position fragment = [] := by
  induction fragment generalizing position with
  | nil => rfl
  | cons item rest ih =>
    have hrest : ∀ target, Item.goto target ∉ rest :=
      fun target hmem => h target (List.mem_cons_of_mem _ hmem)
    cases item with
    | op => exact ih hrest _
    | call => exact ih hrest _
    | goto target => exact absurd List.mem_cons_self (h target)

theorem overwriteWith_eq {n : Nat} (hn : n < 2 ^ 32) (fragment : Fragment)
    (hjumps : ∀ target, .goto target ∉ fragment)
    (hin : n + fragment.length ≤ store.code.ops.size) :
    ∃ code, store.overwriteWith n.toUInt32 fragment = { store with code := code } ∧
      code.cursor = store.code.cursor ∧
      store.code.Overwritten n (store.entries.render id n fragment) code := by
  have hnat : n.toUInt32.toNat = n := by
    rw [Nat.toUInt32, UInt32.toNat_ofNat', Nat.mod_eq_of_lt hn]
  obtain ⟨⟨hsize, hinside, houtside⟩, -⟩ := emitAll_overwritten
    { store.code with cursor := some n } rfl
    (store.entries.render id n fragment) (by rwa [length_render])
  refine ⟨{ ({ store.code with cursor := some n } : CodeBuffer).emitAll
    (store.entries.render id n fragment) with cursor := store.code.cursor }, ?_, rfl,
    ⟨hsize, hinside, houtside⟩⟩
  rw [overwriteWith, hnat, emitFragment_eq]
  simp only [waits_of_targets id hjumps, position, Option.getD_some,
    Array.append_empty]

end CodeStore

namespace Host.CodeBuffer

theorem overwrite_overwritten (hn : n < 2 ^ 32) {emission : CodeBuffer → CodeBuffer} {ops : List Op}
    (hemission : ∀ c : CodeBuffer, c.cursor = some n → emission c = c.emitAll ops)
    (hin : n + ops.length ≤ code.ops.size) :
    (code.overwrite n.toUInt32 emission).cursor = code.cursor ∧
      code.Overwritten n ops (code.overwrite n.toUInt32 emission) := by
  have hnat : n.toUInt32.toNat = n := by
    rw [Nat.toUInt32, UInt32.toNat_ofNat', Nat.mod_eq_of_lt hn]
  obtain ⟨⟨hsize, hinside, houtside⟩, -⟩ :=
    emitAll_overwritten { code with cursor := some n } rfl ops hin
  refine ⟨rfl, ?_⟩
  simp only [overwrite, overwriting, hnat, hemission { code with cursor := some n } rfl]
  exact ⟨hsize, hinside, houtside⟩

end Host.CodeBuffer

end Dynarec68k
