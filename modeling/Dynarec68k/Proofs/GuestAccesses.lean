import Dynarec68k.Proofs.FragmentRuns

/-!
What code does to the guest, exactly. A `View` is what is known of a host: all that the guest can
see, and the values of some scratch registers. Operations lead from one view to another, and
accesses to memory do what `Guest.load` and `Guest.store` say, or find an odd address. A fragment
`Follows` a computation if it comes to its result, and asks for nothing but what is foreseen.
-/

namespace Dynarec68k

open Host Codegen Role Machine

variable {m m' : Machine} {memory memory' : MemoryMap} {C : RegisterAssignment → Prop}
  {address v w : UInt32}

/-- What a guest can see of its processor. -/
structure Guest where
  registers : RegisterFile
  memory : MemoryMap
  cycle : UInt32

/-- An access to a word or a long at an odd address, and what the guest saw then. -/
structure OddAccess where
  kind : FaultKind
  address : UInt32
  guest : Guest

namespace MemoryMap

def load (map : MemoryMap) (size : Size) (x : UInt32) : UInt32 × MemoryMap :=
  match size with
  | .byte => ((map.read8 x).1.toUInt32, (map.read8 x).2)
  | .word => ((map.read16 x).1.toUInt32, (map.read16 x).2)
  | .long => map.read32 x

def store (map : MemoryMap) (size : Size) (lowFirst : Bool) (x value : UInt32) : MemoryMap :=
  match size with
  | .byte => (map.write8 x value.toUInt8).2
  | .word => (map.write16 x value.toUInt16).2
  | .long => if lowFirst then (map.write32LowFirst x value).2 else (map.write32 x value).2

end MemoryMap

namespace Guest

/-- The guest's view of a host and its memory. -/
def seen (a : RegisterAssignment) (m : Machine) (memory : MemoryMap) : Guest :=
  ⟨a.spill m, memory, m.state.reg cycles⟩

theorem seen_congr {a b : RegisterAssignment} {n : Machine} (memory : MemoryMap)
    (hspill : a.spill m = b.spill n) (hcycles : m.state.reg cycles = n.state.reg cycles) :
    seen a m memory = seen b n memory := by
  rw [seen, seen, hspill, hcycles]

/-- After an access that left some memory. -/
def accessed (g : Guest) (config : Config) (size : Size) (memory : MemoryMap) : Guest :=
  ⟨g.registers, memory, g.cycle + (if size = .long then 2 else 1) * config.busCycles⟩

def load (g : Guest) (config : Config) (size : Size) (x : UInt32) :
    Except OddAccess (UInt32 × Guest) :=
  if size ≠ .byte ∧ x &&& 1 ≠ 0 then .error ⟨.read, x, g⟩
  else .ok ((g.memory.load size x).1, g.accessed config size (g.memory.load size x).2)

def store (g : Guest) (config : Config) (size : Size) (lowFirst : Bool) (x value : UInt32) :
    Except OddAccess Guest :=
  if size ≠ .byte ∧ x &&& 1 ≠ 0 then .error ⟨.write, x, g⟩
  else .ok (g.accessed config size (g.memory.store size lowFirst x value))

section

variable (g : Guest) (config : Config) {size : Size} {x : UInt32}

theorem load_even (h : x &&& 1 = 0) : g.load config size x =
    .ok ((g.memory.load size x).1, g.accessed config size (g.memory.load size x).2) :=
  if_neg fun hodd => hodd.2 h

theorem load_odd (hsize : size ≠ .byte) (h : x &&& 1 ≠ 0) :
    g.load config size x = .error ⟨.read, x, g⟩ :=
  if_pos ⟨hsize, h⟩

theorem store_even (h : x &&& 1 = 0) (lowFirst : Bool) (value : UInt32) :
    g.store config size lowFirst x value =
      .ok (g.accessed config size (g.memory.store size lowFirst x value)) :=
  if_neg fun hodd => hodd.2 h

theorem store_odd (hsize : size ≠ .byte) (h : x &&& 1 ≠ 0) (lowFirst : Bool) (value : UInt32) :
    g.store config size lowFirst x value = .error ⟨.write, x, g⟩ :=
  if_pos ⟨hsize, h⟩

end

end Guest

namespace Cpu

variable (cpu : Cpu) (host : State) (size : Size) (x : UInt32)

def guest : Guest :=
  ⟨cpu.registers, cpu.memory, cpu.cycle⟩

theorem Shows.guest {cpu : Cpu} {config : Config} (h : cpu.Shows config m memory) :
    cpu.guest = .seen config.registerAssignment m memory := by
  rw [Cpu.guest, Guest.seen, h.registers, h.memory, h.cycle]

theorem load_guest (h : (cpu.serveRead host size x).outcome = .proceed) :
    ∃ value, (cpu.serveRead host size x).result = some value ∧
      cpu.guest.load cpu.config size x = .ok (value, (cpu.serveRead host size x).cpu.guest) := by
  unfold serveRead at h ⊢
  unfold Guest.load
  split
  · rename_i hodd
    rw [if_pos hodd] at h
    exact absurd h (Outcome.ofEntry_ne_proceed _)
  · cases size with
    | byte => exact ⟨_, rfl, rfl⟩
    | word => exact ⟨_, rfl, rfl⟩
    | long => exact ⟨_, rfl, rfl⟩

theorem guest_afterWrite (bytes : Nat) (action : DeviceAction) :
    (cpu.afterWrite x bytes action).guest = cpu.guest := by
  cases action <;> rfl

theorem store_guest (lowFirst : Bool) (x value : UInt32)
    (h : (cpu.serveWrite host size lowFirst x value).outcome = .proceed) :
    cpu.guest.store cpu.config size lowFirst x value =
      .ok (cpu.serveWrite host size lowFirst x value).cpu.guest := by
  unfold serveWrite at h ⊢
  unfold Guest.store
  split
  · rename_i hodd
    rw [if_pos hodd] at h
    exact absurd h (Outcome.ofEntry_ne_proceed _)
  · refine congrArg Except.ok ?_
    cases size with
    | byte => simp only [Served.done, write8, guest_afterWrite]; rfl
    | word => simp only [Served.done, write16, guest_afterWrite]; rfl
    | long =>
      cases lowFirst with
      | false => simp only [Served.done, write32, guest_afterWrite, Bool.false_eq_true, if_false]; rfl
      | true => simp only [Served.done, write32LowFirst, guest_afterWrite, if_true]; rfl

end Cpu

namespace Answers

variable {config : Config} {clocks : Nat} {size : Size}

theorem read (h : Answers config (Gate.ofRead size).service clocks m memory m' memory') :
    (Guest.seen config.registerAssignment m memory).load config size (m.state.reg scratch1) =
      .ok (m'.state.reg scratch1, .seen config.registerAssignment m' memory') := by
  obtain ⟨cpu, host, hbefore, hhost, houtcome, hafter, hresult⟩ := h.served
  have hserve : cpu.serve host (Gate.ofRead size).service =
      cpu.serveRead host size (m.state.reg scratch1) := by
    rw [← hhost]
    cases size <;> rfl
  rw [hserve] at houtcome hafter hresult
  obtain ⟨value, hvalue, hload⟩ := cpu.load_guest host size _ houtcome
  rw [← hbefore.guest, ← hafter.guest, hresult value hvalue, ← hload, hbefore.config_eq]

theorem write {lowFirst : Bool}
    (h : Answers config (Gate.ofWrite size lowFirst).service clocks m memory m' memory') :
    (Guest.seen config.registerAssignment m memory).store config size lowFirst
        (m.state.reg scratch2) (m.state.reg scratch1) =
      .ok (.seen config.registerAssignment m' memory') := by
  obtain ⟨cpu, host, hbefore, hhost, houtcome, hafter, -⟩ := h.served
  have hserve : cpu.serve host (Gate.ofWrite size lowFirst).service =
      cpu.serveWrite host size lowFirst (m.state.reg scratch2)
        (m.state.reg scratch1) := by
    rw [← hhost, ← hhost]
    cases size with
    | byte => rfl
    | word => rfl
    | long => cases lowFirst <;> rfl
  rw [hserve] at houtcome hafter
  rw [← hbefore.guest, ← hafter.guest, ← cpu.store_guest host size lowFirst _ _ houtcome,
    hbefore.config_eq]

end Answers

theorem RegisterFile.part_long_and_mask (file : RegisterFile) (n : Fin 16) (size : Size) :
    file.part (generalOffset n) .long &&& size.mask = file.part (generalOffset n) size := by
  apply eq_of_byteOf
  intro k hk
  rw [byteOf_and_mask _ _ hk, byteOf_part _ (generalOffset_bound n .long).1 hk,
    byteOf_part _ (generalOffset_bound n size).1 hk, if_pos (show k < Size.long.bytes from hk)]

theorem Word.signExtend16_and_mask (v : UInt32) : signExtend16 (v &&& Size.word.mask) = signExtend16 v := by
  have hlow : (v &&& Size.word.mask).toUInt16 = v.toUInt16 := by
    apply UInt16.toNat_inj.mp
    rw [UInt32.toNat_toUInt16, UInt32.toNat_toUInt16, UInt32.toNat_and,
      show Size.word.mask.toNat = 2 ^ 16 - 1 from rfl, Nat.and_two_pow_sub_one_eq_mod, Nat.mod_mod]
  rw [signExtend16, hlow, signExtend16]

theorem Host.subWith_long (x y : UInt32) : (subWith .long x y false).1 = x - y := by
  apply UInt32.toNat_inj.mp
  have hx := x.toNat_lt
  have hy := y.toNat_lt
  rw [subWith, show Size.long.modulus = 2 ^ 32 from rfl, UInt32.toNat_sub]
  simp only [UInt32.toNat_ofNat', Bool.toNat_false]
  omega

/-- The assignment that code is generated for. -/
abbrev Config.Own (config : Config) (a : RegisterAssignment) : Prop :=
  a = config.registerAssignment

/-- What is known of a host: all of the guest, and some scratch registers. -/
structure View where
  guest : Guest
  known : Scratch → Option UInt32

/-- No scratch register is known. -/
def View.blank (g : Guest) : View :=
  ⟨g, fun _ => none⟩

/-- Where code can leave a long without moving the clock. -/
def Spot.isTarget : Spot → Bool
  | .guest _ => true
  | .scratch s => s != .cycles
  | _ => false

namespace View

structure Holds (σ : View) (a : RegisterAssignment) (m : Machine) (memory : MemoryMap) : Prop where
  guest : Guest.seen a m memory = σ.guest
  known : ∀ s v, s ≠ .cycles → σ.known s = some v → m.state.reg s.reg = v

/-- The long in a place, if it is known. -/
def get (σ : View) : Spot → Option UInt32
  | .guest n => some (σ.guest.registers.general n)
  | .scratch s => if s = .cycles then none else σ.known s
  | .const v => some v
  | .field _ => none

def set (σ : View) (v : UInt32) : Spot → View
  | .guest n =>
    { σ with guest := { σ.guest with registers := σ.guest.registers.setGeneral n v } }
  | .scratch s => { σ with known := Function.update σ.known s (some v) }
  | _ => σ

namespace Holds

variable {σ : View} {a : RegisterAssignment} {s d : Spot}

theorem read (h : σ.Holds a m memory) (hready : m.Ready) (hget : σ.get s = some v) (size : Size) :
    m.read (s.place a) size = .ok (v &&& size.mask) := by
  cases s with
  | guest n =>
    rw [← Option.some.inj hget, ← h.guest, RegisterFile.general_eq_part _ n.isLt,
      RegisterFile.part_long_and_mask _ n]
    exact read_guest _ hready n size
  | scratch s =>
    by_cases hs : s = .cycles
    · rw [get, if_pos hs] at hget
      cases hget
    · rw [get, if_neg hs] at hget
      rw [Spot.place, Machine.read, h.known s v hs hget]
  | field offset => cases hget
  | const value => rw [← Option.some.inj hget, Spot.place, Machine.read]

theorem read_long (h : σ.Holds a m memory) (hready : m.Ready) (hget : σ.get s = some v) :
    m.read (s.place a) .long = .ok v := by
  rw [h.read hready hget, and_mask_long]

theorem setFlags (h : σ.Holds a m memory) (flags : Flags) : σ.Holds a (m.setFlags flags) memory :=
  ⟨h.guest, h.known⟩

theorem setReg (h : σ.Holds a m memory) {t : Scratch} (ht : t ≠ .cycles) (v : UInt32) :
    (σ.set v (.scratch t)).Holds a (m.setReg t.reg .long v) memory := by
  have hreg (s : Scratch) : (m.setReg t.reg .long v).state.reg s.reg =
      if s = t then v else m.state.reg s.reg := by
    rw [Machine.setReg, Alike.merge_long, State.reg_setReg _ t.reg_number.1]
    by_cases hst : s = t
    · rw [if_pos (congrArg _ hst), if_pos hst]
    · rw [if_neg fun heq => hst (Scratch.reg_injective heq), if_neg hst]
  refine ⟨?_, fun s w hs hw => ?_⟩
  · rw [set, ← h.guest]
    exact Guest.seen_congr memory (spill_setReg_scratch _ m t _)
      ((hreg .cycles).trans (if_neg (Ne.symm ht)))
  · rw [hreg]
    by_cases hst : s = t
    · rw [if_pos hst]
      simp only [set, hst, Function.update_self] at hw
      exact Option.some.inj hw
    · rw [if_neg hst]
      simp only [set, Function.update_of_ne hst] at hw
      exact h.known s w hs hw

theorem write (h : σ.Holds a m memory) (hready : m.Ready) (hd : d.isTarget = true)
    (hwrite : m.write (d.place a) .long v = .ok m') : (σ.set v d).Holds a m' memory := by
  cases d with
  | guest n =>
    obtain ⟨_, hwritten, hkeeps, hspill⟩ := write_guest a hready n .long v
    cases hwritten.symm.trans hwrite
    refine ⟨?_, fun s w hs hw => (hkeeps.scratch s).trans (h.known s w hs hw)⟩
    rw [set, ← h.guest]
    simp only [Guest.seen]
    rw [hspill, ← RegisterFile.setGeneral_eq_put _ _ n.isLt,
      show m'.state.reg cycles = m.state.reg cycles from hkeeps.scratch .cycles]
  | scratch s =>
    cases hwrite
    exact h.setReg (bne_iff_ne.mp hd) v
  | field offset => cases hd
  | const value => cases hd

end Holds

/-- A view of a host by several assignments. -/
def On (σ : View) (C : RegisterAssignment → Prop) (m : Machine) (memory : MemoryMap) : Prop :=
  ∀ a, C a → σ.Holds a m memory

theorem On.weaken {σ τ : View} (h : σ.On C m memory) (hguest : τ.guest = σ.guest)
    (hknown : ∀ s v, τ.known s = some v → σ.known s = some v) : τ.On C m memory := fun a ha =>
  ⟨(h a ha).guest.trans hguest.symm, fun s v hs hv => (h a ha).known s v hs (hknown s v hv)⟩

end View

/-- Accesses that code may still make. They are granted in time, if odd addresses are foreseen. -/
structure Allowance (config : Config) (needs : Needs) (foreseen : OddAccess → Prop) where
  /-- What may have been spent with so many accesses left. -/
  time : Nat → Nat → Prop
  later : ∀ {k spent c : Nat}, time (k + 1) spent → c ≤ 8 * config.clockDivider.toNat →
    time k (spent + c)
  granted : ∀ {k spent : Nat} {s : Service} {m : Machine} {memory : MemoryMap},
    s.isAccess = true → time (k + 1) spent →
    (s.isWide = true → s.address m &&& 1 ≠ 0 →
      foreseen ⟨s.faultKind, s.address m, .seen config.registerAssignment m memory⟩) →
    needs.service s spent m memory

/-- What is known of a host and of memory, whatever was spent. -/
abbrev Fact :=
  Machine → MemoryMap → Prop

section

variable {config : Config} {needs : Needs} {E : OddAccess → Prop} {α β : Type}

def Allowance.At (A : Allowance config needs E) (i : Nat) (P : Fact) : Assertion :=
  fun spent m memory => A.time i spent ∧ P m memory

/-- The fragment makes no access. -/
def Leads (A : Allowance config needs E) (P : Fact) (f : Fragment) (Q : Fact) : Prop :=
  ∀ i, Contract config needs (A.At i P) f (A.At i Q)

/-- The fragment comes to the result of a computation, if there is one. -/
def Follows (A : Allowance config needs E) (i : Nat) (P : Fact) (f : Fragment) (j : Nat)
    (x : Except OddAccess α) (Q : α → Fact) : Prop :=
  (∀ e, x = .error e → E e) → Contract config needs (A.At i P) f fun spent m memory =>
    ∃ y, x = .ok y ∧ A.At j (Q y) spent m memory

variable {A : Allowance config needs E} {P Q R : Fact} {e f : Fragment} {i j k : Nat}

theorem Allowance.time_le {k : Nat} {spent : Nat} (n : Nat) (h : A.time (k + n) spent) :
    A.time k spent := by
  induction n with
  | zero => exact h
  | succ n ih => exact ih (A.later (c := 0) h (Nat.zero_le _))

namespace Leads

theorem nil : Leads A P [] P := fun _ =>
  .nil

theorem append (h : Leads A P e Q) (h' : Leads A Q f R) : Leads A P (e ++ f) R := fun i =>
  (h i).append (h' i)

theorem mono (h : Leads A P f Q) (hq : ∀ m memory, Q m memory → R m memory) : Leads A P f R :=
  fun i => (h i).mono fun _ m memory hat => ⟨hat.1, hq m memory hat.2⟩

theorem op {o : Host.Op} (hdata : o.isData = true) (hspares : o.Spares cycles)
    (h : ∀ m m' memory, m.Ready → P m memory → m.perform o = .ok m' → Q m' memory) :
    Leads A P [.op o] Q := fun _ =>
  .op hdata hspares fun _ m m' memory hready _ hat hperform =>
    ⟨hat.1, h m m' memory hready hat.2 hperform⟩

theorem ops {ops : List Host.Op} (hdata : ∀ o ∈ ops, o.isData = true)
    (hspares : ∀ o ∈ ops, o.Spares cycles)
    (h : ∀ m memory, m.Ready → P m memory → ∃ m', m.performAll ops = .ok m' ∧ Q m' memory) :
    Leads A P (ops.map .op) Q := by
  suffices hall : Leads A (fun m memory => ∃ m', m.performAll ops = .ok m' ∧ Q m' memory)
      (ops.map .op) Q from fun i spent m memory hready hat =>
    hall i spent m memory hready ⟨hat.1, h m memory hready hat.2⟩
  clear h
  induction ops with
  | nil =>
    refine nil.mono ?_
    rintro m memory ⟨m', hm, hq⟩
    cases hm
    exact hq
  | cons o rest ih =>
    refine append (op (hdata o List.mem_cons_self) (hspares o List.mem_cons_self) ?_)
      (ih (fun o ho => hdata o (List.mem_cons_of_mem _ ho))
        fun o ho => hspares o (List.mem_cons_of_mem _ ho))
    rintro m m' memory - ⟨last, hlast, hq⟩ hperform
    rw [performAll, hperform] at hlast
    exact ⟨last, hlast, hq⟩

section

variable {σ : View} {s d : Spot} {p q : Place}
  (hp : ∀ a, C a → s.place a = p) (hs : σ.get s = some v)
include hp hs

theorem extend {t : Scratch} (ht : t ≠ .cycles) :
    Leads A (σ.On C) (movsx p t.reg .word .long)
      ((σ.set (Word.signExtend16 v) (.scratch t)).On C) := by
  refine op rfl (Op.spares_of_writes rfl fun heq =>
    ht (Scratch.reg_injective (t := .cycles) (Place.reg.inj heq)))
    fun m m' memory hready hviews hperform a ha => ?_
  have hview := hviews a ha
  rw [← hp a ha, perform, hview.read hready hs] at hperform
  cases hperform
  rw [← Word.signExtend16_and_mask]
  exact hview.setReg ht _

variable (hq : ∀ a, C a → d.place a = q) (hclock : q ≠ .reg cycles) (hd : d.isTarget = true)
include hq hclock hd

theorem mov : Leads A (σ.On C) (mov p q .long) ((σ.set v d).On C) := by
  refine op rfl (Op.spares_of_writes rfl hclock) fun m m' memory hready hviews hperform a ha => ?_
  have hview := hviews a ha
  rw [← hp a ha, ← hq a ha, perform, hview.read_long hready hs] at hperform
  exact hview.write hready hd hperform

theorem alu {o : Alu} {r : UInt32} (ho : o.stores = true)
    (hr : ∀ flags, (o.apply .long w v flags).1 = r) (hget : σ.get d = some w) :
    Leads A (σ.On C) (alu o p q .long) ((σ.set r d).On C) := by
  refine op rfl (Op.spares_of_writes (if_pos ho) hclock)
    fun m m' memory hready hviews hperform a ha => ?_
  have hview := hviews a ha
  simp only [← hp a ha, ← hq a ha, perform, hview.read_long hready hs,
    hview.read_long hready hget, bind, Except.bind, ho, if_true, hr] at hperform
  have hready' : (m.setFlags (o.apply .long w v m.state.flags).2).Ready :=
    ⟨hready.context, hready.stack⟩
  exact (hview.setFlags _).write hready' hd hperform

theorem add (hget : σ.get d = some w) :
    Leads A (σ.On C) (Codegen.alu .add p q .long) ((σ.set (w + v) d).On C) :=
  alu hp hs hq hclock hd rfl (fun _ => addWith_long w v) hget

theorem sub (hget : σ.get d = some w) :
    Leads A (σ.On C) (Codegen.alu .sub p q .long) ((σ.set (w - v) d).On C) :=
  alu hp hs hq hclock hd rfl (fun _ => subWith_long w v) hget

end

end Leads

namespace Follows

variable {x : Except OddAccess α} {V W : α → Fact}

theorem bind {y : α → Except OddAccess β} {W : β → Fact} (h : Follows A i P e j x V)
    (h' : ∀ r, x = .ok r → Follows A j (V r) f k (y r) W) :
    Follows A i P (e ++ f) k (x >>= y) W := by
  intro hforeseen
  refine (h fun e he => hforeseen e (by rw [he]; rfl)).append ?_
  rintro spent m memory hready ⟨r, hr, hat⟩
  subst hr
  exact h' r rfl hforeseen spent m memory hready hat

theorem done {r : α} (h : Leads A P f (V r)) : Follows A i P f i (.ok r) V := fun _ =>
  (h i).mono fun _ _ _ hat => ⟨r, rfl, hat⟩

theorem weaken (h : Follows A i P f j x V) (hp : ∀ m memory, Q m memory → P m memory) :
    Follows A i Q f j x V := fun hforeseen =>
  (h hforeseen).weaken (fun _ m memory hat => ⟨hat.1, hp m memory hat.2⟩) fun _ _ _ hlast => hlast

theorem sooner (h : Follows A i P f j x V) (n : Nat) : Follows A (i + n) P f j x V := fun hforeseen =>
  (h hforeseen).weaken (fun _ _ _ hat => ⟨A.time_le n hat.1, hat.2⟩) fun _ _ _ hlast => hlast

theorem skipIf {t : Test} {b : Bool} {r : α} (h : Follows A (i + 1) P f i x V)
    (hskip : ∀ m memory, P m memory → V r m memory)
    (hflags : ∀ m memory, P m memory → m.state.flags.holds t = !b) :
    Follows A (i + 1) P (skipIf t f) i (if b then x else .ok r) V := by
  intro hforeseen
  cases b with
  | true =>
    refine .skipIf ((h hforeseen).weaken (fun _ _ _ hat => hat.1) fun _ _ _ hlast => hlast)
      fun spent m memory hat htest => ?_
    cases (hflags m memory hat.2).symm.trans htest
  | false =>
    refine .skipIf (fun spent m memory _ hat => ?_) fun spent m memory hat _ =>
      ⟨r, rfl, A.later hat.1 (Nat.zero_le _), hskip m memory hat.2⟩
    cases (hflags m memory hat.1.2).symm.trans hat.2

theorem mono (h : Follows A i P f j x V)
    (hv : ∀ r m memory, x = .ok r → V r m memory → W r m memory) : Follows A i P f j x W := by
  intro hforeseen
  refine (h hforeseen).mono ?_
  rintro spent m memory ⟨r, hr, hat⟩
  exact ⟨r, hr, hat.1, hv r m memory hr hat.2⟩

theorem map {F : α → β} {W : β → Fact} (h : Follows A i P f j x V)
    (hf : ∀ r m memory, x = .ok r → V r m memory → W (F r) m memory) :
    Follows A i P f j (x >>= fun r => .ok (F r)) W := by
  intro hforeseen
  refine (h fun e he => hforeseen e (by rw [he]; rfl)).mono ?_
  rintro spent m memory ⟨r, hr, hat⟩
  subst hr
  exact ⟨F r, rfl, hat.1, hf r m memory rfl hat.2⟩

theorem after (h : Leads A P e Q) (h' : Follows A i Q f j x V) : Follows A i P (e ++ f) j x V :=
  fun hforeseen => (h i).append (h' hforeseen)

theorem before (h : Follows A i P e j x V) (h' : ∀ r, x = .ok r → Leads A (V r) f (W r)) :
    Follows A i P (e ++ f) j x W := by
  refine fun hforeseen => (h hforeseen).append ?_
  rintro spent m memory hready ⟨r, hr, hat⟩
  exact (h' r hr j spent m memory hready hat).mono fun _ _ _ hlast => ⟨hlast.1, r, hr, hlast.2⟩

variable {σ : View}

theorem on_answers {g : Guest} {known : Scratch → Option UInt32} {service : Service} {clocks : Nat}
    (h : Answers config service clocks m memory m' memory')
    (hC : ∀ a, C a → a = config.registerAssignment ∨ a = .inFile)
    (hguest : Guest.seen config.registerAssignment m' memory' = g)
    (hknown : ∀ s v, s ≠ .cycles → known s = some v → m'.state.reg s.reg = v) :
    View.On ⟨g, known⟩ C m' memory' := by
  intro a ha
  refine ⟨?_, hknown⟩
  rcases hC a ha with rfl | rfl
  · exact hguest
  · rw [← hguest]
    exact Guest.seen_congr memory' h.level.symm rfl

variable (hC : ∀ a, C a → a = config.registerAssignment ∨ a = .inFile)
  (ha : C config.registerAssignment) {size : Size}
include hC ha

theorem read (hfirst : σ.known .first = some address) :
    Follows A (i + 1) (σ.On C) (callRead size) i (σ.guest.load config size address) fun r =>
      View.On ⟨r.2, Function.update σ.known .first (some r.1)⟩ C := by
  have hgate : (Gate.ofRead size).isAccess = true ∧ (Gate.ofRead size).service.isAccess = true ∧
      (Gate.ofRead size).service.isStore = false ∧ (Gate.ofRead size).service.mostClocks ≤ 8 ∧
      ((Gate.ofRead size).service.isWide = true → size ≠ .byte) := by
    cases size <;> decide
  obtain ⟨hgate, haccess, hstore, hmost, hwide⟩ := hgate
  intro hforeseen
  refine .asks (.call hgate) (fun spent m memory hat => ?_)
    fun spent m memory clocks m' memory' hat hanswers => ?_
  · obtain ⟨hguest, hknown⟩ := hat.2 _ ha
    refine A.granted haccess hat.1 fun hw hodd => ?_
    have haddress : (Gate.ofRead size).service.address m = address := by
      rw [Service.address, hstore, if_neg (by decide)]
      exact hknown .first address (by decide) hfirst
    rw [haddress] at hodd ⊢
    rw [Service.faultKind, hstore, hguest]
    exact hforeseen _ (Guest.load_odd _ _ (hwide hw) hodd)
  · obtain ⟨hguest, hknown⟩ := hat.2 _ ha
    have hload := hanswers.read
    rw [hguest, show m.state.reg scratch1 = address from hknown _ _ (by decide) hfirst] at hload
    refine ⟨_, hload, A.later hat.1 (Nat.mul_le_mul_right _ (hanswers.most.trans hmost)),
      on_answers hanswers hC rfl fun s v hs hv => ?_⟩
    by_cases hsame : s = .first
    · subst hsame
      rw [Function.update_self] at hv
      exact Option.some.inj hv
    · rw [Function.update_of_ne hsame] at hv
      exact (hanswers.rests s hsame hs).trans (hknown s v hs hv)

theorem write {lowFirst : Bool} (hsecond : σ.known .second = some address)
    (hfirst : σ.known .first = some v) :
    Follows A (i + 1) (σ.On C) (callWrite size lowFirst) i
      (σ.guest.store config size lowFirst address v) fun g =>
        View.On ⟨g, Function.update σ.known .first none⟩ C := by
  have hgate : (Gate.ofWrite size lowFirst).isAccess = true ∧
      (Gate.ofWrite size lowFirst).service.isAccess = true ∧
      (Gate.ofWrite size lowFirst).service.isStore = true ∧
      (Gate.ofWrite size lowFirst).service.mostClocks ≤ 8 ∧
      ((Gate.ofWrite size lowFirst).service.isWide = true → size ≠ .byte) := by
    cases size <;> cases lowFirst <;> decide
  obtain ⟨hgate, haccess, hstore, hmost, hwide⟩ := hgate
  intro hforeseen
  refine .asks (.call hgate) (fun spent m memory hat => ?_)
    fun spent m memory clocks m' memory' hat hanswers => ?_
  · obtain ⟨hguest, hknown⟩ := hat.2 _ ha
    refine A.granted haccess hat.1 fun hw hodd => ?_
    have haddress : (Gate.ofWrite size lowFirst).service.address m = address := by
      rw [Service.address, hstore, if_pos rfl]
      exact hknown .second address (by decide) hsecond
    rw [haddress] at hodd ⊢
    rw [Service.faultKind, hstore, hguest]
    exact hforeseen _ (Guest.store_odd _ _ (hwide hw) hodd _ _)
  · obtain ⟨hguest, hknown⟩ := hat.2 _ ha
    have hstored := hanswers.write
    rw [hguest, show m.state.reg scratch1 = v from hknown _ _ (by decide) hfirst,
      show m.state.reg scratch2 = address from hknown _ _ (by decide) hsecond] at hstored
    refine ⟨_, hstored, A.later hat.1 (Nat.mul_le_mul_right _ (hanswers.most.trans hmost)),
      on_answers hanswers hC rfl fun s w hs hw => ?_⟩
    by_cases hsame : s = .first
    · subst hsame
      rw [Function.update_self] at hw
      cases hw
    · rw [Function.update_of_ne hsame] at hw
      exact (hanswers.rests s hsame hs).trans (hknown s w hs hw)

end Follows

end

end Dynarec68k
