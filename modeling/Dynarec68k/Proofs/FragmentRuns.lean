import Dynarec68k.Proofs.ServiceAnswers

/-!
What becomes of a host inside a fragment. `Runs` says of a position that the host comes to the end of
the fragment or leaves it, whatever the services it asks for answer, and that every service and every
jump finds what it needs on the way. The cycles spent so far are counted along.

`Contract` says it of fragments as a whole. Its rules follow how fragments are put together.
-/

namespace Dynarec68k

open Host Relation Codegen Role Fragment

variable {o : Host.Op} {size : Size}

namespace Host

/-- The operation leaves its result elsewhere. -/
def Op.Spares (o : Host.Op) (r : Reg) : Prop :=
  ∀ place size, o.writes = some (place, size) → place ≠ .reg r

theorem Op.spares_of_writes {r : Reg} {place : Place} (h : o.writes = some (place, size))
    (hplace : place ≠ .reg r) : o.Spares r := by
  intro place' size' h'
  rw [h] at h'
  cases h'
  exact hplace

theorem Op.spares_of_none {r : Reg} (h : o.writes = none) : o.Spares r := by
  intro place size h'
  rw [h] at h'
  cases h'

namespace Machine

variable {m m' : Machine} {r : Reg} {value : UInt32}

theorem write_slot_ok {base : Reg} {disp : Int32}
    (h : m.write (.slot base disp) size value = .ok m') :
    ∃ offset, m.offset? base disp = some offset ∧ offset + size.bytes ≤ registerFileSize ∧
      m' = { m with file := m.file.put offset size value } := by
  simp only [write] at h
  cases hoffset : m.offset? base disp with
  | none =>
    rw [hoffset] at h
    cases h
  | some offset =>
    simp only [hoffset] at h
    by_cases hbound : offset + size.bytes ≤ registerFileSize
    · rw [RegisterFile.write?_eq_put _ _ hbound] at h
      exact ⟨offset, rfl, hbound, (Except.ok.inj h).symm⟩
    · simp only [RegisterFile.write?, if_neg hbound] at h
      cases h

theorem write_spares {place : Place} (hplace : place ≠ .reg r)
    (h : m.write place size value = .ok m') : m'.state.reg r = m.state.reg r := by
  cases place with
  | reg r' =>
    rw [write] at h
    cases h
    have hne : r ≠ r' := by
      rintro rfl
      exact hplace rfl
    by_cases hr' : r'.number.toNat < 16
    · exact (State.reg_setReg _ hr' _ _).trans (if_neg hne)
    · have hout : m.state.regs.setIfInBounds r'.number.toNat
          (merge size (m.state.reg r') value) = m.state.regs :=
        Vector.setIfInBounds_eq_of_size_le (by omega)
      rw [setReg, State.setReg, hout]
  | imm value' => cases h
  | slot base disp =>
    obtain ⟨offset, -, -, rfl⟩ := write_slot_ok h
    rfl

theorem perform_spares (hspares : o.Spares r) (h : m.perform o = .ok m') :
    m'.state.reg r = m.state.reg r := by
  obtain ⟨flags, rfl | ⟨place, size, value, hplace, hwrite⟩⟩ := perform_cases h
  · rfl
  · exact write_spares (m := m.setFlags flags) (hspares place size hplace) hwrite

theorem perform_stack (h : m.perform o = .ok m') : m'.state.stack = m.state.stack := by
  obtain ⟨flags, rfl | ⟨place, size, value, -, hwrite⟩⟩ := perform_cases h
  · rfl
  · cases place with
    | reg r =>
      rw [write] at hwrite
      cases hwrite
      rfl
    | imm value' => cases hwrite
    | slot base disp =>
      obtain ⟨offset, -, -, rfl⟩ := write_slot_ok hwrite
      rfl

end Machine

/-- The clock has moved, and flags may have changed. -/
structure Machine.Ticks (m m' : Machine) : Prop where
  reg : ∀ r, r ≠ cycles → m'.state.reg r = m.state.reg r
  stack : m'.state.stack = m.state.stack
  file : m'.file = m.file

theorem Machine.Ticks.refl (m : Machine) : m.Ticks m :=
  ⟨fun _ _ => rfl, rfl, rfl⟩

theorem addWith_long (x y : UInt32) : (addWith .long x y false).1 = x + y := by
  apply UInt32.toNat_inj.mp
  have hmodulus : Size.long.modulus = 4294967296 := rfl
  simp only [addWith, hmodulus, Bool.toNat_false, Nat.add_zero, UInt32.toNat_add]
  exact UInt32.toNat_ofNat_of_lt (Nat.mod_lt _ (by decide))

theorem Machine.perform_tick {m : Machine} {src : Place} {v : UInt32} (h : m.read src .long = .ok v) :
    ∃ m', m.perform (.alu .add src (.reg cycles) .long) = .ok m' ∧ m.Ticks m' ∧
      m'.state.reg cycles = m.state.reg cycles + v := by
  have hclock : m.read (.reg cycles) .long = .ok (m.state.reg cycles) := by
    rw [read, and_mask_long]
  let flags := (addWith .long (m.state.reg cycles) v false).2
  have hreg (r : Reg) :
      ((m.setFlags flags).setReg cycles .long (m.state.reg cycles + v)).state.reg r =
        if r = cycles then m.state.reg cycles + v else m.state.reg r := by
    rw [Machine.setReg, Alike.merge_long]
    exact State.reg_setReg _ (by decide) _ _
  refine ⟨(m.setFlags flags).setReg cycles .long (m.state.reg cycles + v), ?_,
    ⟨fun r hr => (hreg r).trans (if_neg hr), rfl, rfl⟩, (hreg _).trans (if_pos rfl)⟩
  simp only [perform, h, hclock, bind, Except.bind, Alu.apply, Alu.stores, if_true, addWith_long,
    write]
  rfl

theorem Machine.perform_charge (m : Machine) (disp : Int32) :
    ∃ m', m.perform (.lea cycles disp cycles) = .ok m' ∧ m.Ticks m' ∧
      m'.state.reg cycles = m.state.reg cycles + disp.toUInt32 := by
  have hreg (r : Reg) := m.state.reg_setReg (r := cycles) (by decide) r
    (m.state.reg cycles + disp.toUInt32)
  exact ⟨_, rfl, ⟨fun r hr => (hreg r).trans (if_neg hr), rfl, rfl⟩, (hreg _).trans (if_pos rfl)⟩

end Host

/-- No operation of the fragment leaves its result in the register. -/
def Fragment.Spares (f : Fragment) (r : Reg) : Prop :=
  ∀ o, .op o ∈ f → o.Spares r

namespace Fragment.Spares

variable {e f : Fragment} {r : Reg}

theorem append (h : e.Spares r) (h' : f.Spares r) : Spares (e ++ f) r := by
  intro o ho
  rcases List.mem_append.mp ho with hleft | hright
  · exact h o hleft
  · exact h' o hright

theorem op {place : Place} (h : o.writes = some (place, size)) (hplace : place ≠ .reg r) :
    Spares [.op o] r := by
  intro o' ho
  cases List.mem_singleton.mp ho
  exact Op.spares_of_writes h hplace

end Fragment.Spares

/-- What is known of a host and of memory at a place of the code, after so many cycles. -/
abbrev Assertion :=
  Nat → Machine → MemoryMap → Prop

/-- What is to be known where code asks for a service that gives back control, where it asks for one
that does not, and where it goes on at a guest address. -/
structure Needs where
  service : Service → Assertion
  leave : Service → Assertion
  target : UInt32 → Assertion

/-- The item asks for a service that gives back control, at once or through a gate. -/
inductive Item.Requests : Item → Service → Prop where
  | call {gate : Gate} (h : gate.isAccess = true) : Requests (.call gate) gate.service
  | service {s : Service} (h : s.comesBack = true) : Requests (.op (.service s)) s

/-- A host that has spent some cycles since the beginning of an instruction, at a position of a
fragment. -/
inductive Runs (config : Config) (needs : Needs) (f : Fragment) (Post : Assertion) :
    Nat → Nat → Machine → MemoryMap → Prop where
  | done {spent : Nat} {m : Machine} {memory : MemoryMap} (h : Post spent m memory) :
      Runs config needs f Post spent f.length m memory
  /-- An operation on the host, which may be one on its clock. -/
  | data {spent c i : Nat} {m : Machine} {memory : MemoryMap} {o : Host.Op}
      (hitem : f[i]? = some (.op o)) (hdata : o.isData = true)
      (hclock : ∀ m', m.perform o = .ok m' →
        m'.state.reg cycles = m.state.reg cycles + c.toUInt32)
      (next : ∀ m', m.perform o = .ok m' → m'.Ready →
        Runs config needs f Post (spent + c) (i + 1) m' memory) :
      Runs config needs f Post spent i m memory
  | turns {spent i i' : Nat} {m : Machine} {memory : MemoryMap} (hmoves : f.Moves (i, m) (i', m))
      (next : Runs config needs f Post spent i' m memory) : Runs config needs f Post spent i m memory
  | asks {spent i : Nat} {m : Machine} {memory : MemoryMap} {item : Item} {service : Service}
      (hitem : f[i]? = some item) (hasks : item.Requests service)
      (hneeds : needs.service service spent m memory)
      (next : ∀ clocks m' memory', Answers config service clocks m memory m' memory' →
        Runs config needs f Post (spent + clocks * config.clockDivider.toNat) (i + 1) m' memory') :
      Runs config needs f Post spent i m memory
  | leaves {spent i : Nat} {m : Machine} {memory : MemoryMap} {s : Service}
      (hitem : f[i]? = some (.op (.service s))) (hs : s.goesAway = true)
      (hneeds : needs.leave s spent m memory) : Runs config needs f Post spent i m memory
  | goto {spent i : Nat} {m : Machine} {memory : MemoryMap} {x : UInt32}
      (hitem : f[i]? = some (.goto x)) (hneeds : needs.target x spent m memory) :
      Runs config needs f Post spent i m memory
  /-- A jump to a guest address in the first scratch register. -/
  | jumps {spent i : Nat} {m : Machine} {memory : MemoryMap}
      (hstands : jumpComputed.StandsAt f i)
      (hneeds : needs.leave .locate spent m memory) : Runs config needs f Post spent i m memory

namespace Runs

variable {config : Config} {needs : Needs} {f F : Fragment} {Mid Post : Assertion}
  {spent i k : Nat} {m : Machine} {memory : MemoryMap}

theorem embed (h : Runs config needs f Mid spent i m memory) (hf : f.StandsAt F k)
    (hrest : ∀ spent m memory, Mid spent m memory →
      Runs config needs F Post spent (k + f.length) m memory) :
    Runs config needs F Post spent (k + i) m memory := by
  induction h with
  | done h => exact hrest _ _ _ h
  | data hitem hdata hclock _ ih => exact .data (hf.getElem? hitem) hdata hclock ih
  | turns hmoves _ ih => exact .turns (hf.moves hmoves) ih
  | asks hitem hasks hneeds _ ih => exact .asks (hf.getElem? hitem) hasks hneeds ih
  | leaves hitem hs hneeds => exact .leaves (hf.getElem? hitem) hs hneeds
  | goto hitem hneeds => exact .goto (hf.getElem? hitem) hneeds
  | jumps hstands hneeds => exact .jumps (hstands.trans hf) hneeds

theorem within (h : Runs config needs f Mid spent 0 m memory) (hf : f.StandsAt F k)
    (hrest : ∀ spent m memory, Mid spent m memory →
      Runs config needs F Post spent (k + f.length) m memory) :
    Runs config needs F Post spent k m memory :=
  h.embed hf hrest

theorem mono (h : Runs config needs f Mid spent i m memory)
    (hpost : ∀ spent m memory, Mid spent m memory → Post spent m memory) :
    Runs config needs f Post spent i m memory := by
  have hembedded : Runs config needs f Post spent (0 + i) m memory :=
    h.embed (standsAt_self f) fun spent m memory hmid => by
      rw [Nat.zero_add]
      exact .done (hpost spent m memory hmid)
  rwa [Nat.zero_add] at hembedded

/-- A scratch register that no operation of the fragment changes is as it was behind it. -/
theorem keeps (h : Runs config needs f Post spent i m memory) {s : Scratch} (hfirst : s ≠ .first)
    (hcycles : s ≠ .cycles) (hspares : f.Spares s.reg) :
    Runs config needs f (fun spent m' memory => Post spent m' memory ∧
      m'.state.reg s.reg = m.state.reg s.reg) spent i m memory := by
  induction h with
  | done h => exact .done ⟨h, rfl⟩
  | data hitem hdata hclock _ ih =>
    refine .data hitem hdata hclock fun m' hperform hready => (ih m' hperform hready).mono ?_
    rintro spent last memory ⟨hpost, hlast⟩
    have hkept := Machine.perform_spares (hspares _ (List.mem_of_getElem? hitem)) hperform
    exact ⟨hpost, hlast.trans hkept⟩
  | turns hmoves _ ih => exact .turns hmoves ih
  | asks hitem hasks hneeds _ ih =>
    refine .asks hitem hasks hneeds fun clocks m' memory' hanswers =>
      (ih clocks m' memory' hanswers).mono ?_
    rintro spent last memory ⟨hpost, hlast⟩
    exact ⟨hpost, hlast.trans (hanswers.rests s hfirst hcycles)⟩
  | leaves hitem hs hneeds => exact .leaves hitem hs hneeds
  | goto hitem hneeds => exact .goto hitem hneeds
  | jumps hstands hneeds => exact .jumps hstands hneeds

end Runs

/-- From a host that is ready where `P` holds, the fragment finds what it needs, and `Q` holds where
it is fallen out of. -/
def Contract (config : Config) (needs : Needs) (P : Assertion) (f : Fragment) (Q : Assertion) :
    Prop :=
  ∀ spent m memory, m.Ready → P spent m memory →
    Runs config needs f (fun spent m memory => m.Ready ∧ Q spent m memory) spent 0 m memory

namespace Contract

variable {config : Config} {needs : Needs} {e f : Fragment} {P P' Q Q' R : Assertion} {t : Test}

theorem nil : Contract config needs P [] P := fun _ _ _ hready hp =>
  .done ⟨hready, hp⟩

theorem append (h : Contract config needs P e R) (h' : Contract config needs R f Q) :
    Contract config needs P (e ++ f) Q := by
  intro spent m memory hready hp
  refine (h spent m memory hready hp).within (standsAt_left e f) ?_
  rintro spent m memory ⟨hready, hr⟩
  rw [Nat.zero_add]
  refine (h' spent m memory hready hr).within (standsAt_right e f) ?_
  rintro spent m memory hq
  rw [← List.length_append]
  exact .done hq

theorem weaken (h : Contract config needs P f Q)
    (hp : ∀ spent m memory, P' spent m memory → P spent m memory)
    (hq : ∀ spent m memory, Q spent m memory → Q' spent m memory) :
    Contract config needs P' f Q' := fun spent m memory hready hp' =>
  (h spent m memory hready (hp spent m memory hp')).mono
    fun spent m memory hpost => ⟨hpost.1, hq spent m memory hpost.2⟩

theorem mono (h : Contract config needs P f Q)
    (hq : ∀ spent m memory, Q spent m memory → Q' spent m memory) : Contract config needs P f Q' :=
  h.weaken (fun _ _ _ hp => hp) hq

theorem ended (h : Contract config needs P f fun _ _ _ => False) : Contract config needs P f Q :=
  h.mono fun _ _ _ hq => hq.elim

theorem keeps (h : Contract config needs P f Q) {s : Scratch} (hfirst : s ≠ .first)
    (hcycles : s ≠ .cycles) (hspares : f.Spares s.reg) (v : UInt32) :
    Contract config needs (fun spent m memory => P spent m memory ∧ m.state.reg s.reg = v) f
      fun spent m memory => Q spent m memory ∧ m.state.reg s.reg = v := by
  rintro spent m memory hready ⟨hp, hv⟩
  refine ((h spent m memory hready hp).keeps hfirst hcycles hspares).mono ?_
  rintro spent m' memory ⟨⟨hready', hq⟩, hkept⟩
  exact ⟨hready', hq, hkept.trans hv⟩

theorem tick (hdata : o.isData = true) (cost : Machine → Nat)
    (hclock : ∀ m m', m.perform o = .ok m' →
      m'.state.reg cycles = m.state.reg cycles + (cost m).toUInt32)
    (h : ∀ spent m m' memory, m.Ready → m'.Ready → P spent m memory → m.perform o = .ok m' →
      Q (spent + cost m) m' memory) : Contract config needs P [.op o] Q :=
  fun spent m memory hready hp => .data (c := cost m) rfl hdata (hclock m) fun m' hperform hready' =>
    .done ⟨hready', h spent m m' memory hready hready' hp hperform⟩

theorem op (hdata : o.isData = true) (hspares : o.Spares cycles)
    (h : ∀ spent m m' memory, m.Ready → m'.Ready → P spent m memory → m.perform o = .ok m' →
      Q spent m' memory) : Contract config needs P [.op o] Q := by
  refine tick hdata (fun _ => 0) (fun m m' hperform => ?_) h
  rw [Machine.perform_spares hspares hperform]
  exact (UInt32.add_zero _).symm

theorem charge {clocks : Nat} (h : ∀ spent m m' memory, P spent m memory → m.Ticks m' →
      m'.state.reg cycles = m.state.reg cycles + config.cycles clocks →
      Q (spent + (config.cycles clocks).toNat) m' memory) :
    Contract config needs P (charge config clocks) Q := by
  rw [Codegen.charge]
  split
  · rename_i hzero
    subst hzero
    refine nil.mono fun spent m memory hp => ?_
    have hnone := h spent m m memory hp (.refl m)
    rw [Config.cycles, show (Nat.toUInt32 0) = 0 from rfl, UInt32.zero_mul, UInt32.add_zero] at hnone
    exact hnone rfl
  · have hcharged {m m' : Machine}
        (hperform : m.perform (.lea cycles (config.cycles clocks).toInt32 cycles) = .ok m') :
        m.Ticks m' ∧ m'.state.reg cycles = m.state.reg cycles + config.cycles clocks := by
      obtain ⟨_, hcharged, hticks, hclock⟩ := m.perform_charge (config.cycles clocks).toInt32
      cases hcharged.symm.trans hperform
      exact ⟨hticks, hclock⟩
    refine tick rfl (fun _ => (config.cycles clocks).toNat) (fun m m' hperform => ?_)
      fun spent m m' memory _ _ hp hperform => ?_
    · rw [(hcharged hperform).2, show (config.cycles clocks).toNat.toUInt32 = _ from
        UInt32.ofNat_toNat]
    · exact h spent m m' memory hp (hcharged hperform).1 (hcharged hperform).2

theorem asks {item : Item} {service : Service} (hasks : item.Requests service)
    (hneeds : ∀ spent m memory, P spent m memory → needs.service service spent m memory)
    (h : ∀ spent m memory clocks m' memory', P spent m memory →
      Answers config service clocks m memory m' memory' →
      Q (spent + clocks * config.clockDivider.toNat) m' memory') :
    Contract config needs P [item] Q := fun spent m memory _ hp =>
  .asks rfl hasks (hneeds spent m memory hp) fun clocks m' memory' hanswers =>
    .done ⟨hanswers.ready, h spent m memory clocks m' memory' hp hanswers⟩

theorem leave {s : Service} (hs : s.goesAway = true)
    (hneeds : ∀ spent m memory, P spent m memory → needs.leave s spent m memory) :
    Contract config needs P (service s) fun _ _ _ => False :=
  fun spent m memory _ hp => .leaves rfl hs (hneeds spent m memory hp)

theorem goto {x : UInt32}
    (hneeds : ∀ spent m memory, P spent m memory → needs.target x spent m memory) :
    Contract config needs P [.goto x] fun _ _ _ => False :=
  fun spent m memory _ hp => .goto rfl (hneeds spent m memory hp)

theorem computed (hneeds : ∀ spent m memory, P spent m memory →
      needs.leave .locate spent m memory) :
    Contract config needs P jumpComputed fun _ _ _ => False := by
  intro spent m memory hready hp
  refine .jumps (fun i _ => ?_) (hneeds spent m memory hp)
  rw [Nat.zero_add]

theorem skipIf
    (h : Contract config needs
      (fun spent m memory => P spent m memory ∧ m.state.flags.holds t = false) f Q)
    (hskip : ∀ spent m memory, P spent m memory → m.state.flags.holds t = true → Q spent m memory) :
    Contract config needs P (skipIf t f) Q := by
  intro spent m memory hready hp
  have hfirst : (Codegen.skipIf t f)[0]? = some (.op (.jumpIf t (Int32.ofNat f.length))) := rfl
  have hend (spent : Nat) (m : Machine) (memory : MemoryMap)
      (hpost : m.Ready ∧ Q spent m memory) :
      Runs config needs (Codegen.skipIf t f) (fun spent m memory => m.Ready ∧ Q spent m memory)
        spent (0 + 1 + f.length) m memory := by
    rw [← skipIf_length t]
    exact .done hpost
  cases htest : m.state.flags.holds t with
  | true =>
    exact .turns (.taken hfirst htest) (hend _ _ _ ⟨hready, hskip spent m memory hp htest⟩)
  | false =>
    refine .turns (.passed hfirst htest) ?_
    exact (h spent m memory hready ⟨hp, htest⟩).within
      (standsAt_right (jumpOverIf t f.length) f) hend

theorem choose
    (h : Contract config needs (fun spent m memory =>
      P spent m memory ∧ m.state.flags.holds t = false) e Q)
    (h' : Contract config needs (fun spent m memory =>
      P spent m memory ∧ m.state.flags.holds t = true) f Q) :
    Contract config needs P (choice t e f) Q := by
  intro spent m memory hready hp
  have hfirst := choice_head t e f
  have hend (spent : Nat) (m : Machine) (memory : MemoryMap)
      (hpost : m.Ready ∧ Q spent m memory) :
      Runs config needs (choice t e f) (fun spent m memory => m.Ready ∧ Q spent m memory)
        spent (0 + 1 + (e.length + 1) + f.length) m memory := by
    rw [← choice_length t]
    exact .done hpost
  cases htest : m.state.flags.holds t with
  | true =>
    refine .turns (.taken hfirst htest) ?_
    exact (h' spent m memory hready ⟨hp, htest⟩).within (choice_second t e f) hend
  | false =>
    refine .turns (.passed hfirst htest) ?_
    refine (h spent m memory hready ⟨hp, htest⟩).within (choice_first t e f)
      fun spent m memory hpost => ?_
    exact .turns (.skip (choice_jump t e f)) (hend spent m memory hpost)

theorem trapped {r : Test} (hdata : o.isData = true) (hspares : o.Spares cycles)
    (hop : ∀ spent m m' memory, m.Ready → m'.Ready → P spent m memory → m.perform o = .ok m' →
      Q spent m' memory)
    (h : Contract config needs P e fun _ _ _ => False)
    (h' : Contract config needs Q f fun _ _ _ => False) :
    Contract config needs P (trapped t r o e f) Q := by
  intro spent m memory hready hp
  have hhead {i : Nat} (hi : i < 4) := trapped_head t r o e f hi
  cases htest : m.state.flags.holds t with
  | true =>
    refine .turns (.taken (hhead (by decide)) htest) ?_
    exact (h spent m memory hready hp).within (trapped_first t r o e f)
      fun _ _ _ hpost => hpost.2.elim
  | false =>
    refine .turns (.passed (hhead (by decide)) htest) ?_
    refine .data (c := 0) (hhead (i := 1) (by decide)) hdata (fun m' hperform => ?_)
      fun m' hperform hready' => ?_
    · rw [Machine.perform_spares hspares hperform]
      exact (UInt32.add_zero _).symm
    · have hq := hop spent m m' memory hready hready' hp hperform
      cases htest' : m'.state.flags.holds r with
      | true =>
        refine .turns (.taken (hhead (i := 2) (by decide)) htest') ?_
        rw [show 2 + 1 + (1 + e.length) = 4 + e.length by omega]
        exact (h' spent m' memory hready' hq).within (trapped_second t r o e f)
          fun _ _ _ hpost => hpost.2.elim
      | false =>
        refine .turns (.passed (hhead (i := 2) (by decide)) htest') ?_
        refine .turns (.skip (hhead (i := 3) (by decide))) ?_
        rw [show 3 + 1 + (e.length + f.length) = (Fragment.trapped t r o e f).length by
          rw [trapped_length]]
        exact .done ⟨hready', hq⟩

/-- A fragment that is run again as long as a test holds behind it, in states that are counted
down. -/
theorem loop {S : Nat → Assertion}
    (h : ∀ k, Contract config needs (S k) f fun spent m memory =>
      (m.state.flags.holds t = true → ∃ k' < k, S k' spent m memory) ∧
        (m.state.flags.holds t = false → Q spent m memory))
    (k : Nat) : Contract config needs (S k) (repeatWhile t f) Q := by
  induction k using Nat.strongRecOn with
  | ind k ih =>
    intro spent m memory hready hstate
    refine (h k spent m memory hready hstate).within (standsAt_left f _) ?_
    rintro spent m memory ⟨hready, hmid⟩
    rw [Nat.zero_add]
    have hlast := repeatWhile_last t f
    cases htest : m.state.flags.holds t with
    | true =>
      obtain ⟨k', hlt, hagain⟩ := hmid.1 htest
      exact .turns (.back hlast htest (Nat.zero_add _)) (ih k' hlt spent m memory hready hagain)
    | false =>
      refine .turns (.passed hlast htest) ?_
      rw [← repeatWhile_length t f]
      exact .done ⟨hready, hmid.2 htest⟩

end Contract

end Dynarec68k
