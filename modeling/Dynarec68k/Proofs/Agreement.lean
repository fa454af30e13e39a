import Dynarec68k.Proofs.RegisterFile

/-!
Two hosts that run code of the same instructions, each with a register assignment of its own.
They agree when the guest cannot tell them apart: the guest's registers, the flags and the scratch
registers are the same, wherever each host keeps them. `Alike.perform` is the main statement: one
operation, written for either assignment, succeeds on both and keeps them in agreement.
-/

namespace Dynarec68k

open Host Role RegisterFile Machine

variable {user : Bool} {m machine : Machine} {n offset : Nat} {a b : RegisterAssignment}
  {size : Size} (assignment : RegisterAssignment)

theorem byteAt_foldl_setGeneral (value : Reg → UInt32) (mapped : List (Nat × Reg))
    (file : RegisterFile) (hbound : ∀ entry ∈ mapped, entry.1 < 16)
    (hkeys : (mapped.map Prod.fst).Nodup) (k : Nat) :
    (mapped.foldl (fun file (guest, host) => file.setGeneral guest (value host)) file).byteAt k =
      match mapped.lookup (k / 4) with
      | some host => byteOf (value host) (k % 4)
      | none => file.byteAt k := by
  induction mapped generalizing file with
  | nil => rfl
  | cons entry rest ih =>
    obtain ⟨guest, host⟩ := entry
    simp only [List.map_cons, List.nodup_cons] at hkeys
    rw [List.foldl_cons, ih _ (fun e he => hbound e (List.mem_cons_of_mem _ he)) hkeys.2,
      List.lookup_cons]
    have hguest : guest < 16 := hbound (guest, host) List.mem_cons_self
    by_cases hk : k / 4 = guest
    · have hnone : rest.lookup guest = none := by
        rw [List.lookup_eq_none_iff]
        rintro ⟨other, reg⟩ he
        rw [bne_iff_ne]
        rintro rfl
        exact hkeys.1 (List.mem_map_of_mem he)
      simp only [hk, hnone, beq_self_eq_true]
      rw [byteAt_setGeneral _ _ hguest, if_pos hk]
    · have hne : (k / 4 == guest) = false := beq_eq_false_iff_ne.mpr hk
      simp only [hne]
      cases rest.lookup (k / 4) with
      | some other => rfl
      | none =>
        simp only
        rw [byteAt_setGeneral _ _ hguest, if_neg hk]

namespace RegisterAssignment

/-- The guest's registers, brought together from the file and the host registers. -/
def spill (assignment : RegisterAssignment) (machine : Machine) : RegisterFile :=
  assignment.mapped.foldl
    (fun file (guest, host) => file.setGeneral guest (machine.state.reg host)) machine.file

theorem mapped_bound : ∀ entry ∈ assignment.mapped, entry.1 < 16 := by
  cases assignment <;> decide

theorem mapped_keys : (assignment.mapped.map Prod.fst).Nodup := by
  cases assignment <;> decide

theorem byteAt_spill (machine : Machine) (k : Nat) :
    (assignment.spill machine).byteAt k =
      match assignment.mapped.lookup (k / 4) with
      | some host => byteOf (machine.state.reg host) (k % 4)
      | none => machine.file.byteAt k :=
  byteAt_foldl_setGeneral _ _ _ assignment.mapped_bound assignment.mapped_keys k

theorem lookup_mapped {assignment : RegisterAssignment} {guest : Nat} {host : Reg}
    (h : assignment.mapped.lookup guest = some host) :
    guest < 16 ∧ 7 ≤ host.number.toNat ∧ host.number.toNat < 15 ∧
      ∀ other, assignment.mapped.lookup other = some host → other = guest := by
  cases assignment with
  | inFile => simp [mapped] at h
  | mixed =>
    have hall : ∀ e ∈ Role.mixed, e.1 < 16 ∧ 7 ≤ e.2.number.toNat ∧ e.2.number.toNat < 15 ∧
        ∀ f ∈ Role.mixed, f.2 = e.2 → f.1 = e.1 := by decide
    have hmem : ∀ g r, Role.mixed.lookup g = some r → (g, r) ∈ Role.mixed := by
      intro g r hg
      obtain ⟨l, l', heq, -⟩ := List.lookup_eq_some_iff.mp hg
      rw [heq]
      exact List.mem_append_right _ List.mem_cons_self
    obtain ⟨hguest, hlow, hhigh, hinj⟩ := hall _ (hmem _ _ h)
    refine ⟨hguest, hlow, hhigh, ?_⟩
    intro other hother
    exact hinj _ (hmem _ _ hother) rfl

end RegisterAssignment

namespace Host

theorem State.reg_setReg (state : State) {r : Reg} (h : r.number.toNat < 16) (r' : Reg)
    (value : UInt32) :
    (state.setReg r value).reg r' = if r' = r then value else state.reg r' := by
  obtain ⟨n⟩ := r
  obtain ⟨n'⟩ := r'
  simp only at h
  by_cases hn' : n'.toNat < 16
  · have hiff : n' = n ↔ n.toNat = n'.toNat := by
      constructor
      · rintro rfl
        rfl
      · intro heq
        exact (UInt8.toNat_inj.mp heq).symm
    simp only [State.reg, State.setReg, hn', dif_pos, Reg.mk.injEq]
    rw [Vector.getElem_setIfInBounds hn']
    simp only [hiff]
  · have hne : n' ≠ n := by
      rintro rfl
      exact hn' h
    simp [State.reg, hn', hne]

/-- The base of the register file is in place and no call is open. -/
structure Machine.Ready (machine : Machine) : Prop where
  context : machine.state.reg context = 0
  stack : machine.state.stack = []

theorem Machine.offset?_context (ready : machine.Ready) (h : offset < registerFileSize) :
    machine.offset? context (Int32.ofNat offset) = some offset := by
  have hdisp : (Int32.ofNat offset).toInt = offset :=
    Int32.toInt_ofNat_of_lt (by rw [registerFileSize] at h; omega)
  simp [offset?, ready.context, hdisp]

end Host

/-- Host registers that every assignment leaves to generated code. The cycle limit is not among
them: code only compares with it. -/
inductive Scratch where
  | first
  | second
  | third
  | fourth
  | temp
  | cycles
  deriving DecidableEq

def Scratch.reg : Scratch → Reg
  | .first => scratch1
  | .second => scratch2
  | .third => scratch3
  | .fourth => scratch4
  | .temp => Role.temp
  | .cycles => Role.cycles

theorem Scratch.reg_number (s : Scratch) :
    s.reg.number.toNat < 16 ∧ s.reg ≠ Role.context ∧
      (s.reg.number.toNat < 7 ∨ s.reg.number.toNat = 15) ∧ s.reg ≠ Role.limit := by
  cases s <;> decide

theorem Scratch.reg_injective {s t : Scratch} (h : s.reg = t.reg) : s = t := by
  cases s <;> cases t <;> first | rfl | exact absurd h (by decide)

/-- What a place stands for, whatever the assignment. -/
inductive Spot where
  | guest (n : Fin 16)
  | scratch (s : Scratch)
  /-- A part of the register file after the general registers. -/
  | field (offset : Nat)
  | const (value : UInt32)
  deriving DecidableEq

namespace Spot

def place (assignment : RegisterAssignment) : Spot → Place
  | .guest n => assignment.place n.val
  | .scratch s => .reg s.reg
  | .field offset => .slot context (Int32.ofNat offset)
  | .const value => .imm value

abbrev data (n : Fin 8) : Spot :=
  .guest ⟨n.val, by omega⟩

abbrev addr (n : Fin 8) : Spot :=
  .guest ⟨8 + n.val, by omega⟩

end Spot

/-- How far two hosts agree. -/
inductive Grade where
  | stop
  | tight
  /-- But for the first scratch register. -/
  | loose
  deriving DecidableEq

namespace Grade

/-- Agreement after a whole value went to a place. -/
def written (grade : Grade) (spot : Spot) (size : Size) : Grade :=
  if grade = .loose ∧ spot = .scratch .first ∧ size = .long then .tight else grade

end Grade

namespace Spot

/-- Hosts that agree as far as `grade` find the same value of a size here. -/
def Readable (grade : Grade) (size : Size) : Spot → Prop
  | .scratch s => s = .first → grade = .tight
  | .field offset => 64 ≤ offset ∧ offset + size.bytes ≤ registerFileSize
  | _ => True

/-- A value of a size can be stored here, in user mode too if `user`. The upper byte of the status
register is left to services, and user mode keeps the stack pointer not in use. -/
def Writable (user : Bool) (size : Size) : Spot → Prop
  | .field offset =>
    (64 ≤ offset ∧ offset + size.bytes ≤ statusOffset) ∧
      (user = true → 68 ≤ offset)
  | .const _ => False
  | _ => True

theorem Writable.readable {grade : Grade} (h : (field offset).Writable user size) :
    (field offset).Readable grade size :=
  ⟨h.1.1, Nat.le_trans h.1.2 (by decide)⟩

end Spot

/-- Hosts with the assignments `a` and `b` that the guest cannot tell apart. -/
structure Alike (grade : Grade) (a b : RegisterAssignment) (m n : Machine) : Prop where
  reached : grade ≠ .stop
  file : a.spill m = b.spill n
  scratch : ∀ s : Scratch, (s = .first → grade = .tight) → m.state.reg s.reg = n.state.reg s.reg
  limit : m.state.reg limit = n.state.reg limit
  flags : m.state.flags = n.state.flags
  left : m.Ready
  right : n.Ready

namespace RegisterFile

theorem part_congr {file other : RegisterFile} (hoffset : offset + size.bytes ≤ registerFileSize)
    (h : ∀ i < size.bytes, file.byteAt (offset + i) = other.byteAt (offset + i)) :
    file.part offset size = other.part offset size := by
  apply eq_of_byteOf
  intro i hi
  rw [byteOf_part _ hoffset hi, byteOf_part _ hoffset hi]
  split
  · exact h i ‹_›
  · rfl

end RegisterFile

theorem Size.bytes_le (size : Size) : 1 ≤ size.bytes ∧ size.bytes ≤ 4 := by
  cases size <;> decide

namespace RegisterAssignment

theorem lookup_mapped_field (a : RegisterAssignment) {k : Nat} (h : 64 ≤ k) :
    a.mapped.lookup (k / 4) = none := by
  cases hlookup : a.mapped.lookup (k / 4) with
  | none => rfl
  | some host =>
    have := (lookup_mapped hlookup).1
    omega

theorem place_of_lookup {host : Reg} (h : a.mapped.lookup n = some host) :
    a.place n = .reg host := by
  simp [place, h]

theorem place_of_lookup_none (h : a.mapped.lookup n = none) :
    a.place n = .slot context (Int32.ofNat (generalOffset n)) := by
  simp [place, h]

end RegisterAssignment

namespace Host.Machine

theorem generalOffset_bound (n : Fin 16) (size : Size) :
    generalOffset n + size.bytes ≤ registerFileSize ∧
      generalOffset n < registerFileSize := by
  have := size.bytes_le
  have := n.isLt
  simp only [generalOffset, registerFileSize]
  omega

theorem read_slot (ready : machine.Ready) (h : offset + size.bytes ≤ registerFileSize) :
    machine.read (.slot context (Int32.ofNat offset)) size =
      .ok (machine.file.part offset size) := by
  have := size.bytes_le
  simp only [read, offset?_context ready (show offset < registerFileSize by omega),
    read_eq_part _ h]

theorem read_guest (a : RegisterAssignment) (ready : machine.Ready) (n : Fin 16) (size : Size) :
    machine.read (a.place n) size =
      .ok ((a.spill machine).part (generalOffset n) size) := by
  have hbound := (generalOffset_bound n size).1
  have hsize := size.bytes_le
  have hoffset : generalOffset n = 4 * n := rfl
  cases hlookup : a.mapped.lookup n.val with
  | some host =>
    rw [RegisterAssignment.place_of_lookup hlookup, read]
    congr 1
    apply eq_of_byteOf
    intro i hi
    rw [byteOf_and_mask _ _ hi, byteOf_part _ hbound hi, a.byteAt_spill,
      show (generalOffset n + i) / 4 = n by omega,
      show (generalOffset n + i) % 4 = i by omega, hlookup]
  | none =>
    rw [RegisterAssignment.place_of_lookup_none hlookup, read_slot ready hbound]
    congr 1
    apply part_congr hbound
    intro i hi
    rw [a.byteAt_spill, show (generalOffset n + i) / 4 = n by omega, hlookup]

theorem read_field (a : RegisterAssignment) (ready : machine.Ready) (hlow : 64 ≤ offset)
    (h : offset + size.bytes ≤ registerFileSize) :
    machine.read (.slot context (Int32.ofNat offset)) size =
      .ok ((a.spill machine).part offset size) := by
  rw [read_slot ready h]
  congr 1
  apply part_congr h
  intro i hi
  rw [a.byteAt_spill, a.lookup_mapped_field (by omega)]

/-- Nothing has changed but where guest registers are kept. -/
structure Keeps (machine machine' : Machine) : Prop where
  scratch : ∀ s : Scratch, machine'.state.reg s.reg = machine.state.reg s.reg
  limit : machine'.state.reg limit = machine.state.reg limit
  context : machine'.state.reg context = machine.state.reg context
  flags : machine'.state.flags = machine.state.flags
  stack : machine'.state.stack = machine.state.stack

theorem Keeps.ready {machine' : Machine} (h : machine.Keeps machine') (ready : machine.Ready) :
    machine'.Ready :=
  ⟨h.context.trans ready.context, h.stack.trans ready.stack⟩

theorem write_slot (ready : machine.Ready) (h : offset + size.bytes ≤ registerFileSize)
    (value : UInt32) :
    machine.write (.slot context (Int32.ofNat offset)) size value =
      .ok { machine with file := machine.file.put offset size value } := by
  have := size.bytes_le
  simp only [write, offset?_context ready (show offset < registerFileSize by omega),
    write?_eq_put _ _ h]

theorem spill_put (a : RegisterAssignment) (machine : Machine)
    (h : offset + size.bytes ≤ registerFileSize)
    (hfree : ∀ i < size.bytes, a.mapped.lookup ((offset + i) / 4) = none) (value : UInt32) :
    a.spill { machine with file := machine.file.put offset size value } =
      (a.spill machine).put offset size value := by
  apply ext_byteAt
  intro k _
  rw [a.byteAt_spill, byteAt_put _ _ h, byteAt_put _ _ h,
    a.byteAt_spill]
  by_cases hk : offset ≤ k ∧ k < offset + size.bytes
  · have hnone := hfree (k - offset) (by omega)
    rw [show offset + (k - offset) = k by omega] at hnone
    simp only [hnone, hk, and_self, if_true]
  · simp only [hk, if_false]

theorem write_guest (a : RegisterAssignment) (ready : machine.Ready) (n : Fin 16) (size : Size)
    (value : UInt32) :
    ∃ machine', machine.write (a.place n) size value = .ok machine' ∧ machine.Keeps machine' ∧
      a.spill machine' = (a.spill machine).put (generalOffset n) size value := by
  have hbound := (generalOffset_bound n size).1
  have hsize := size.bytes_le
  have hoffset : generalOffset n = 4 * n := rfl
  cases hlookup : a.mapped.lookup n.val with
  | some host =>
    obtain ⟨-, hlow, hhigh, hinj⟩ := RegisterAssignment.lookup_mapped hlookup
    refine ⟨machine.setReg host size value, ?_, ⟨?_, ?_, ?_, rfl, rfl⟩, ?_⟩
    · rw [RegisterAssignment.place_of_lookup hlookup, write]
    · intro s
      have hs := s.reg_number.2.2.1
      simp only [setReg]
      rw [State.reg_setReg _ (by omega), if_neg]
      rintro rfl
      omega
    · simp only [setReg]
      rw [State.reg_setReg _ (by omega), if_neg]
      rintro rfl
      exact absurd hlow (by decide)
    · simp only [setReg]
      rw [State.reg_setReg _ (by omega), if_neg]
      rintro rfl
      exact absurd hlow (by decide)
    · apply ext_byteAt
      intro k _
      rw [a.byteAt_spill, byteAt_put _ _ hbound, a.byteAt_spill]
      cases hk : a.mapped.lookup (k / 4) with
      | some other =>
        simp only [setReg]
        rw [State.reg_setReg _ (by omega)]
        by_cases hother : other = host
        · subst hother
          have hkn : k / 4 = n.val := hinj _ hk
          rw [if_pos rfl, byteOf_merge _ _ _ (Nat.mod_lt _ (by decide))]
          by_cases hmod : k % 4 < size.bytes
          · rw [if_pos hmod, if_pos (by omega),
              show k - generalOffset n = k % 4 by omega]
          · rw [if_neg hmod, if_neg (by omega)]
        · rw [if_neg hother, if_neg]
          intro hrange
          have hkn : k / 4 = n.val := by omega
          rw [hkn, hlookup] at hk
          exact hother (Option.some.inj hk).symm
      | none =>
        rw [if_neg]
        · rfl
        · intro hrange
          have hkn : k / 4 = n.val := by omega
          rw [hkn, hlookup] at hk
          exact absurd hk (by simp)
  | none =>
    refine ⟨{ machine with file := machine.file.put (generalOffset n) size value },
      ?_, ⟨fun _ => rfl, rfl, rfl, rfl, rfl⟩, ?_⟩
    · rw [RegisterAssignment.place_of_lookup_none hlookup]
      exact write_slot ready hbound value
    · apply spill_put _ _ hbound
      intro i hi
      rw [show (generalOffset n + i) / 4 = n by omega, hlookup]

theorem spill_setReg_scratch (a : RegisterAssignment) (machine : Machine) (s : Scratch)
    (value : UInt32) :
    a.spill { machine with state := machine.state.setReg s.reg value } = a.spill machine := by
  obtain ⟨hbound, -, hnumber, -⟩ := s.reg_number
  apply ext_byteAt
  intro k _
  rw [a.byteAt_spill, a.byteAt_spill]
  cases hk : a.mapped.lookup (k / 4) with
  | some host =>
    obtain ⟨-, hlow, hhigh, -⟩ := RegisterAssignment.lookup_mapped hk
    simp only
    rw [State.reg_setReg _ hbound, if_neg]
    rintro rfl
    omega
  | none => rfl

end Host.Machine

/-- Both succeed, and what comes of them is related. -/
def Both {ε α β : Type} (R : α → β → Prop) (x : Except ε α) (y : Except ε β) : Prop :=
  ∃ v w, x = .ok v ∧ y = .ok w ∧ R v w

namespace Alike

variable {grade : Grade} {n : Machine}

theorem loosen (h : Alike .tight a b m n) : Alike .loose a b m n where
  reached := by decide
  file := h.file
  scratch := fun s _ => h.scratch s fun _ => rfl
  limit := h.limit
  flags := h.flags
  left := h.left
  right := h.right

theorem read (h : Alike grade a b m n) {spot : Spot} (hread : spot.Readable grade size) :
    ∃ value, m.read (spot.place a) size = .ok value ∧ n.read (spot.place b) size = .ok value := by
  cases spot with
  | guest r =>
    refine ⟨_, Machine.read_guest a h.left r size, ?_⟩
    rw [h.file]
    exact Machine.read_guest b h.right r size
  | scratch s =>
    refine ⟨_, rfl, ?_⟩
    simp only [Spot.place, Machine.read, h.scratch s hread]
  | field offset =>
    refine ⟨_, Machine.read_field a h.left hread.1 hread.2, ?_⟩
    rw [h.file]
    exact Machine.read_field b h.right hread.1 hread.2
  | const value => exact ⟨_, rfl, rfl⟩

theorem of_keeps (h : Alike grade a b m n) {m' n' : Machine} (hm : m.Keeps m') (hn : n.Keeps n')
    (hfile : a.spill m' = b.spill n') : Alike grade a b m' n' where
  reached := h.reached
  file := hfile
  scratch := fun s hs => by rw [hm.scratch, hn.scratch, h.scratch s hs]
  limit := by rw [hm.limit, hn.limit, h.limit]
  flags := by rw [hm.flags, hn.flags, h.flags]
  left := hm.ready h.left
  right := hn.ready h.right

theorem setScratch (h : Alike grade a b m n) (s : Scratch) {v w : UInt32} {grade' : Grade}
    (hreached : grade' ≠ .stop) (hvalue : (s = .first → grade' = .tight) → v = w)
    (hgrade : s ≠ .first → grade' = .tight → grade = .tight) :
    Alike grade' a b { m with state := m.state.setReg s.reg v }
      { n with state := n.state.setReg s.reg w } where
  reached := hreached
  file := by
    rw [spill_setReg_scratch, spill_setReg_scratch]
    exact h.file
  scratch := by
    intro t ht
    rw [State.reg_setReg _ s.reg_number.1, State.reg_setReg _ s.reg_number.1]
    by_cases hts : t = s
    · subst hts
      rw [if_pos rfl, if_pos rfl]
      exact hvalue ht
    · have hne : t.reg ≠ s.reg := fun heq => hts (Scratch.reg_injective heq)
      rw [if_neg hne, if_neg hne]
      apply h.scratch
      intro hfirst
      exact hgrade (fun hs => hts (hfirst.trans hs.symm)) (ht hfirst)
  limit := by
    rw [State.reg_setReg _ s.reg_number.1, State.reg_setReg _ s.reg_number.1,
      if_neg s.reg_number.2.2.2.symm, if_neg s.reg_number.2.2.2.symm]
    exact h.limit
  flags := h.flags
  left := by
    refine ⟨?_, h.left.stack⟩
    rw [State.reg_setReg _ s.reg_number.1, if_neg (Ne.symm s.reg_number.2.1)]
    exact h.left.context
  right := by
    refine ⟨?_, h.right.stack⟩
    rw [State.reg_setReg _ s.reg_number.1, if_neg (Ne.symm s.reg_number.2.1)]
    exact h.right.context

theorem merge_long (old value : UInt32) : merge .long old value = value := by
  apply eq_of_byteOf
  intro i hi
  rw [byteOf_merge _ _ _ hi, if_pos (show i < Size.long.bytes from hi)]

theorem writeScratch (h : Alike grade a b m n) (s : Scratch) (size : Size) (value : UInt32) :
    Alike (grade.written (.scratch s) size) a b (m.setReg s.reg size value)
      (n.setReg s.reg size value) := by
  by_cases hfull : grade = .loose ∧ s = .first ∧ size = .long
  · obtain ⟨rfl, rfl, rfl⟩ := hfull
    apply h.setScratch
    · decide
    · intro _
      rw [merge_long, merge_long]
    · intro hne
      exact absurd rfl hne
  · have hgrade : grade.written (.scratch s) size = grade := by
      rw [Grade.written, if_neg]
      rintro ⟨hloose, hs, hsize⟩
      exact hfull ⟨hloose, Spot.scratch.inj hs, hsize⟩
    rw [hgrade]
    apply h.setScratch
    · exact h.reached
    · intro hs
      rw [h.scratch s hs]
    · exact fun _ htight => htight

theorem write (h : Alike grade a b m n) {spot : Spot} (hwrite : spot.Writable user size)
    (value : UInt32) :
    Both (Alike (grade.written spot size) a b) (m.write (spot.place a) size value)
      (n.write (spot.place b) size value) := by
  cases spot with
  | guest r =>
    obtain ⟨m', hm, hkm, hfm⟩ := write_guest a h.left r size value
    obtain ⟨n', hn, hkn, hfn⟩ := write_guest b h.right r size value
    refine ⟨m', n', hm, hn, ?_⟩
    rw [Grade.written, if_neg (by simp)]
    exact h.of_keeps hkm hkn (by rw [hfm, hfn, h.file])
  | scratch s => exact ⟨_, _, rfl, rfl, h.writeScratch s size value⟩
  | field offset =>
    obtain ⟨hlow, hhigh⟩ := (hwrite.readable : (Spot.field offset).Readable grade size)
    refine ⟨_, _, write_slot h.left hhigh value, write_slot h.right hhigh value,
      ?_⟩
    have hfree : ∀ c : RegisterAssignment, ∀ i < size.bytes,
        c.mapped.lookup ((offset + i) / 4) = none := by
      intro c i _
      exact c.lookup_mapped_field (by omega)
    rw [Grade.written, if_neg (by simp)]
    refine h.of_keeps ⟨fun _ => rfl, rfl, rfl, rfl, rfl⟩ ⟨fun _ => rfl, rfl, rfl, rfl, rfl⟩ ?_
    rw [spill_put a m hhigh (hfree a), spill_put b n hhigh (hfree b), h.file]
  | const value => exact absurd hwrite id

theorem setFlags (h : Alike grade a b m n) (flags : Flags) :
    Alike grade a b (m.setFlags flags) (n.setFlags flags) where
  reached := h.reached
  file := h.file
  scratch := h.scratch
  limit := h.limit
  flags := rfl
  left := ⟨h.left.context, h.left.stack⟩
  right := ⟨h.right.context, h.right.stack⟩

end Alike

theorem Spot.Readable.written {spot : Spot} {grade : Grade} (h : spot.Readable grade size) :
    grade.written spot size = grade := by
  rw [Grade.written, if_neg]
  rintro ⟨rfl, rfl, -⟩
  exact absurd (h rfl) (by decide)

/-- One operation on the same spots, as it is written for two assignments, and how far hosts agree
before and after it. -/
inductive Matching (a b : RegisterAssignment) (u : Bool) :
    Grade → Host.Op → Host.Op → Grade → Prop where
  | mov {g : Grade} {s d : Spot} {z : Size} (hs : s.Readable g z) (hd : d.Writable u z) :
      Matching a b u g (.mov (s.place a) (d.place a) z) (.mov (s.place b) (d.place b) z)
        (g.written d z)
  | movsx {g : Grade} {s : Spot} {d : Scratch} {z t : Size} (hs : s.Readable g z) :
      Matching a b u g (.movsx (s.place a) d.reg z t) (.movsx (s.place b) d.reg z t)
        (g.written (.scratch d) t)
  | movzx {g : Grade} {s : Spot} {d : Scratch} {z t : Size} (hs : s.Readable g z) :
      Matching a b u g (.movzx (s.place a) d.reg z t) (.movzx (s.place b) d.reg z t)
        (g.written (.scratch d) t)
  | alu {g : Grade} {o : Alu} {s d : Spot} {z : Size} (hs : s.Readable g z)
      (hd : d.Readable g z) (hw : o.stores = true → d.Writable u z) :
      Matching a b u g (.alu o (s.place a) (d.place a) z) (.alu o (s.place b) (d.place b) z) g
  | unary {g : Grade} {o : Unary} {d : Spot} {z : Size} (hd : d.Readable g z)
      (hw : d.Writable u z) :
      Matching a b u g (.unary o (d.place a) z) (.unary o (d.place b) z) g
  | shiftBy {g : Grade} {o : Shift} {k : UInt8} {d : Spot} {z : Size} (hd : d.Readable g z)
      (hw : d.Writable u z) :
      Matching a b u g (.shift o (.imm k) (d.place a) z) (.shift o (.imm k) (d.place b) z) g
  | shiftReg {g : Grade} {o : Shift} {k : Scratch} {d : Spot} {z : Size}
      (hk : k = .first → g = .tight) (hd : d.Readable g z) (hw : d.Writable u z) :
      Matching a b u g (.shift o (.reg k.reg) (d.place a) z) (.shift o (.reg k.reg) (d.place b) z) g
  | bit {g : Grade} {o : BitOp} {s d : Spot} {z : Size} (hs : s.Readable g .long)
      (hd : d.Readable g z) (hw : o ≠ .test → d.Writable u z) :
      Matching a b u g (.bit o (s.place a) (d.place a) z) (.bit o (s.place b) (d.place b) z) g
  | setTest {g : Grade} {t : Test} {d : Spot} (hd : d.Writable u .byte) :
      Matching a b u g (.setTest t (d.place a)) (.setTest t (d.place b)) g
  | lea {g : Grade} {s d : Scratch} {k : Int32} (hs : s = .first → g = .tight) :
      Matching a b u g (.lea s.reg k d.reg) (.lea s.reg k d.reg) (g.written (.scratch d) .long)

namespace Alike

variable {grade grade' : Grade} {n : Machine}

theorem bind_read (h : Alike grade a b m n) {spot : Spot} (hread : spot.Readable grade size)
    {R : Machine → Machine → Prop} {f g : UInt32 → Except FaultReason Machine}
    (hf : ∀ value, Both R (f value) (g value)) :
    Both R (m.read (spot.place a) size >>= f) (n.read (spot.place b) size >>= g) := by
  obtain ⟨value, hm, hn⟩ := h.read hread
  rw [hm, hn]
  exact hf value

theorem rewrite (h : Alike grade a b m n) {d : Spot} (hd : d.Readable grade size)
    (hw : d.Writable user size) (value : UInt32) (flags : Flags) :
    Both (Alike grade a b) ((m.setFlags flags).write (d.place a) size value)
      ((n.setFlags flags).write (d.place b) size value) := by
  have hwritten := (h.setFlags flags).write hw value
  rwa [hd.written] at hwritten

theorem shift (h : Alike grade a b m n) {op : Shift} {c : Count} {d : Spot}
    (hcount : m.count c = n.count c) (hd : d.Readable grade size) (hw : d.Writable user size) :
    Both (Alike grade a b) (m.perform (.shift op c (d.place a) size))
      (n.perform (.shift op c (d.place b) size)) := by
  simp only [perform, hcount, h.flags]
  split
  · exact ⟨m, n, rfl, rfl, h⟩
  · exact h.bind_read hd fun x => h.rewrite hd hw _ _

theorem perform (h : Alike grade a b m n) {op op' : Host.Op}
    (hop : Matching a b user grade op op' grade') :
    Both (Alike grade' a b) (m.perform op) (n.perform op') := by
  cases hop with
  | mov hs hd => exact h.bind_read hs fun x => h.write hd x
  | movsx hs | movzx hs => exact h.bind_read hs fun x => ⟨_, _, rfl, rfl, h.writeScratch _ _ _⟩
  | alu hs hd hw =>
    simp only [perform, h.flags]
    refine h.bind_read hs fun x => h.bind_read hd fun y => ?_
    split
    · exact h.rewrite hd (hw ‹_›) _ _
    · exact ⟨_, _, rfl, rfl, h.setFlags _⟩
  | unary hd hw =>
    simp only [perform, h.flags]
    exact h.bind_read hd fun x => h.rewrite hd hw _ _
  | shiftBy hd hw => exact h.shift rfl hd hw
  | shiftReg hk hd hw =>
    refine h.shift ?_ hd hw
    simp only [count, h.scratch _ hk]
  | @bit op s d size hs hd hw =>
    simp only [perform, h.flags]
    refine h.bind_read hs fun x => h.bind_read hd fun y => ?_
    cases hresult : op.apply y (1 <<< (x.toNat % size.width).toUInt32) with
    | some result =>
      refine h.rewrite hd (hw ?_) _ _
      rintro rfl
      simp [BitOp.apply] at hresult
    | none => exact ⟨_, _, rfl, rfl, h.setFlags _⟩
  | @setTest test d hd =>
    have hwritten := h.write hd (n.state.flags.holds test).toUInt32
    rw [Grade.written, if_neg (by simp)] at hwritten
    simp only [perform, h.flags]
    exact hwritten
  | @lea s d disp hs =>
    refine ⟨_, _, rfl, rfl, ?_⟩
    have hset := h.writeScratch d .long (n.state.reg s.reg + disp.toUInt32)
    simp only [setReg, merge_long] at hset
    simp only [h.scratch s hs]
    exact hset

end Alike

end Dynarec68k
