import Dynarec68k.Proofs.Execution
import Dynarec68k.Proofs.PatchedHeads

/-!
Couplings of two processors. A coupling relates the compiled code of two processors that are
otherwise equal, and says that everything a run does to compiled code keeps it. `Twins` are two
processors in a coupling; what a processor does takes twins to twins, and where one goes on at some
code, the other goes on at the code of the same unit.
-/

namespace Dynarec68k

open Host Cpu

variable (cpu : Cpu) (address : UInt32) (vector : Nat) (fault : AddressFault)

/-- Control at position `n` comes to position `m` without doing anything. -/
def Host.CodeBuffer.Arrives (code : CodeBuffer) (n m : Nat) : Prop :=
  n = m ∨ code.JumpsTo n m

/-- Two places of one unit, where running code finds the same, and goes on to the same units. -/
structure LinkedPair (config : Config) (a b : RegisterAssignment) (P : Pair → Prop) (p : Pair)
    (s t : CodeStore) : Prop where
  shaped : p.unit.Shaped
  heads : ∃ kind opened checked,
    (s.code.HeadAt p.left kind opened checked none ∧
      t.code.HeadAt p.right kind opened checked none) ∨
    ∃ q, P q ∧ s.code.HeadAt p.left kind opened checked (some q.left) ∧
      t.code.HeadAt p.right kind opened checked (some q.right)
  bodyLeft : ∀ (i : Nat) item, (p.unit.body (config.assign a))[i]? = some item →
    s.code.Holds (p.left + 4 + i) item
  bodyRight : ∀ (i : Nat) item, (p.unit.body (config.assign b))[i]? = some item →
    t.code.Holds (p.right + 4 + i) item
  jumps : ∀ e ∈ (Fragment.gotos (p.left + 4) (p.unit.body (config.assign a))).zip
      (Fragment.gotos (p.right + 4) (p.unit.body (config.assign b))),
    ∃ q, P q ∧ s.code.JumpsTo e.1.1 q.left ∧ t.code.JumpsTo e.2.1 q.right
  tail : p.unit.falls = true → ∃ q, P q ∧
    s.code.Arrives (p.left + 4 + (p.unit.body (config.assign a)).length) q.left ∧
    t.code.Arrives (p.right + 4 + (p.unit.body (config.assign b)).length) q.right
  originLeft : ∀ inst, p.unit = .instruction inst → ∀ i < (inst.body (config.assign a)).length,
    s.entries.origin? (p.left + 4 + i).toUInt32 = some inst.address
  originRight : ∀ inst, p.unit = .instruction inst → ∀ i < (inst.body (config.assign b)).length,
    t.entries.origin? (p.right + 4 + i).toUInt32 = some inst.address

/-- Stores in which all the pairs are linked. -/
structure Linked (config : Config) (a b : RegisterAssignment) (P : Pair → Prop)
    (s t : CodeStore) : Prop where
  roomLeft : s.code.ops.size < 2 ^ 31
  roomRight : t.code.ops.size < 2 ^ 31
  endless : s.endless = t.endless
  gatesLeft : ∀ (i : Nat) op, Gate.code[i]? = some op → s.code.ops[i]? = some op
  gatesRight : ∀ (i : Nat) op, Gate.code[i]? = some op → t.code.ops[i]? = some op
  pairs : ∀ p, P p → LinkedPair config a b P p s t

/-- Compilation makes the same of both views. -/
structure GuestView.Similar (view view' : GuestView) : Prop where
  config : view'.config = view.config
  breakpoints : view'.hasBreakpoint = view.hasBreakpoint
  memory : MemoryMap.SameCode view.memory view'.memory

def GuestView.with (view : GuestView) (memory : MemoryMap) : GuestView :=
  { view with memory := memory }

/-- A relation between the compiled code of two processors that runs keep. `P` are the places of
units that control can come to in both. -/
structure Coupling where
  config : Config
  left : RegisterAssignment
  right : RegisterAssignment
  Rel : GuestView → (Pair → Prop) → CodeStore → CodeStore → Prop
  /-- What is known of a unit when its code has just been made. -/
  New : GuestView → CodeStore → Pair → Prop
  new_similar : ∀ {view view' s p}, New view s p → view.Similar view' → New view' s p
  config_eq : ∀ {view P s t}, Rel view P s t → view.config = config
  linked : ∀ {view P s t}, Rel view P s t → Linked config left right P s t
  similar : ∀ {view view' P s t}, Rel view P s t → view.Similar view' → Rel view' P s t
  write : ∀ {view P s t} x w, Rel view P s t →
    Rel (view.with (view.memory.write x w).2) P
      (s.noteWrite config ((view.memory.write x w).2.canonical x) w.bytes)
      (t.noteWrite config ((view.memory.write x w).2.canonical x) w.bytes)
  locate : ∀ {view P s t} x, Rel view P s t → x &&& 1 = 0 →
    (s.locate (view.assign left) x).2.Fits → (t.locate (view.assign right) x).2.Fits →
    ∃ (P' : Pair → Prop) (q : Pair), (∀ p, P p → P' p) ∧
      (∀ p, P' p → P p ∨ New (view.assign left) (s.locate (view.assign left) x).2 p) ∧ P' q ∧
      (s.locate (view.assign left) x).1 = q.left.toUInt32 ∧
      (t.locate (view.assign right) x).1 = q.right.toUInt32 ∧
      Rel view P' (s.locate (view.assign left) x).2 (t.locate (view.assign right) x).2
  /-- Code that was redirected asks to be compiled again. -/
  refresh : ∀ {view P s t p x checked}, Rel view P s t → P p →
    s.code.HeadAt p.left .redirected x checked none →
    (s.refresh (view.assign left) x).2.Fits → (t.refresh (view.assign right) x).2.Fits →
    ∃ (P' : Pair → Prop) (q : Pair), (∀ p, P p → P' p) ∧
      (∀ p, P' p → P p ∨ New (view.assign left) (s.refresh (view.assign left) x).2 p) ∧ P' q ∧
      (s.refresh (view.assign left) x).1 = q.left.toUInt32 ∧
      (t.refresh (view.assign right) x).1 = q.right.toUInt32 ∧
      Rel view P' (s.refresh (view.assign left) x).2 (t.refresh (view.assign right) x).2
  /-- A breakpoint that was taken away without its entry. -/
  stale : ∀ {view P s t p x checked}, Rel view P s t → P p →
    s.code.HeadAt p.left .breakpoint x checked none → view.hasBreakpoint x = false →
    s.lookup x = none ∧ t.lookup x = none ∨
      ∃ q, P q ∧ s.lookup x = some q.left.toUInt32 ∧ t.lookup x = some q.right.toUInt32 ∧
        Rel view P (s.restoreBoundary x q.left.toUInt32) (t.restoreBoundary x q.right.toUInt32)

/-- The right store fits wherever the left one does. -/
def Coupling.OneSided (C : Coupling) : Prop :=
  ∀ view P s t, C.Rel view P s t → ∀ x,
    ((s.locate (view.assign C.left) x).2.Fits → (t.locate (view.assign C.right) x).2.Fits) ∧
      ((s.refresh (view.assign C.left) x).2.Fits → (t.refresh (view.assign C.right) x).2.Fits)

def CpuError.isGuest : CpuError → Bool
  | .hostFault _ _ => false
  | _ => true

namespace GuestView.Similar

theorem refl (view : GuestView) : view.Similar view :=
  ⟨rfl, rfl, .refl _⟩

end GuestView.Similar

namespace Cpu

/-- The same processor with another register assignment and other compiled code. -/
def twin (cpu : Cpu) (a : RegisterAssignment) (store : CodeStore) : Cpu :=
  { cpu with config := cpu.config.assign a, store := store }

def Fits (cpu : Cpu) : Prop :=
  cpu.store.Fits

/-- A function of the processor that concerns neither its compiled code nor what that depends
on. -/
structure Plain {α : Type} (f : Cpu → α × Cpu) : Prop where
  result : ∀ (cpu : Cpu) a store, (f (cpu.twin a store)).1 = (f cpu).1
  twin : ∀ (cpu : Cpu) a store, (f (cpu.twin a store)).2 = (f cpu).2.twin a store
  view : ∀ cpu : Cpu, cpu.view.Similar (f cpu).2.view

end Cpu

namespace Coupling

variable (C : Coupling) (P : Pair → Prop)

/-- Processors that differ in their compiled code, and are coupled. -/
def Twins (x y : Cpu) : Prop :=
  ∃ c s t, x = twin c C.left s ∧ y = c.twin C.right t ∧ C.Rel c.view P s t

/-- Units that control can come to stay so, and others are new. -/
structure Adds (P' : Pair → Prop) (cpu : Cpu) : Prop where
  keeps : ∀ p, P p → P' p
  added : ∀ p, P' p → P p ∨ C.New cpu.view cpu.store p

/-- The compiled code of both processors has room. -/
structure Fit (x y : Cpu) : Prop where
  left : x.Fits
  right : C.OneSided ∨ y.Fits

/-- Results that are related where the compiled code has room. -/
def Fitting {α : Type} (R : α × Cpu → α × Cpu → Prop) (r r' : α × Cpu) : Prop :=
  C.Fit r.2 r'.2 → R r r'

/-- Twins go on at the same unit, or fail in the same way. -/
def Lands (r r' : Except CpuError CodePtr × Cpu) : Prop :=
  ∃ P' : Pair → Prop, C.Adds P P' r.2 ∧ C.Twins P' r.2 r'.2 ∧
    ((∃ q, P' q ∧ r.1 = .ok q.left.toUInt32 ∧ r'.1 = .ok q.right.toUInt32) ∨
      ∃ e : CpuError, e.isGuest = true ∧ r.1 = .error e ∧ r'.1 = .error e)

variable {C P} {x y : Cpu}

theorem Adds.refl (cpu : Cpu) : C.Adds P P cpu :=
  ⟨fun _ hp => hp, fun _ hp => .inl hp⟩

theorem Adds.change {P' : Pair → Prop} {cpu cpu' : Cpu} (h : C.Adds P P' cpu)
    (hstore : cpu'.store = cpu.store) (hview : cpu.view.Similar cpu'.view) : C.Adds P P' cpu' where
  keeps := h.keeps
  added p hp := by
    rw [hstore]
    exact (h.added p hp).imp_right fun hnew => C.new_similar hnew hview

namespace Twins

theorem plain {α : Type} (h : C.Twins P x y) {f : Cpu → α × Cpu} (hf : Plain f) :
    (f x).1 = (f y).1 ∧ C.Twins P (f x).2 (f y).2 := by
  obtain ⟨c, s, t, rfl, rfl, hrel⟩ := h
  exact ⟨(hf.result c _ s).trans (hf.result c _ t).symm, (f c).2, s, t, hf.twin c _ s,
    hf.twin c _ t, C.similar hrel (hf.view c)⟩

theorem change (h : C.Twins P x y) (f : Cpu → Cpu)
    (htwin : ∀ (c : Cpu) a s, f (c.twin a s) = (f c).twin a s)
    (hview : ∀ c : Cpu, c.view.Similar (f c).view) : C.Twins P (f x) (f y) :=
  (h.plain (f := fun c => ((), f c)) ⟨fun _ _ _ => rfl, htwin, hview⟩).2

theorem reading {α : Type} (h : C.Twins P x y) (f : Cpu → α)
    (hf : ∀ (c : Cpu) a s, f (c.twin a s) = f c) : f y = f x := by
  obtain ⟨c, s, t, rfl, rfl, -⟩ := h
  rw [hf, hf]

theorem registers (h : C.Twins P x y) : y.registers = x.registers :=
  h.reading Cpu.registers fun _ _ _ => rfl

end Twins

end Coupling

namespace Cpu

theorem plain_read16 : Plain fun cpu => cpu.read16 address where
  result _ _ _ := rfl
  twin _ _ _ := rfl
  view cpu := ⟨rfl, rfl, cpu.memory.sameCode_read16 address⟩

theorem plain_read32 : Plain fun cpu => cpu.read32 address where
  result _ _ _ := rfl
  twin _ _ _ := rfl
  view cpu := ⟨rfl, rfl, cpu.memory.sameCode_read32 address⟩

theorem plain_vectorTo : Plain fun cpu => cpu.vectorTo vector where
  result cpu a store := by
    simp only [vectorTo]
    have hread := (plain_read32 (4 * vector).toUInt32).result cpu a store
    rw [hread]
    split <;> rfl
  twin cpu a store := by
    simp only [vectorTo]
    have hread := (plain_read32 (4 * vector).toUInt32).result cpu a store
    rw [hread]
    split <;> rfl
  view cpu := by
    have hread : cpu.view.Similar (cpu.read32 (4 * vector).toUInt32).2.view :=
      (plain_read32 _).view cpu
    simp only [vectorTo]
    split
    · exact hread
    · exact hread

theorem plain_faultOpcode : Plain fun cpu => cpu.faultOpcode fault := by
  unfold faultOpcode
  cases fault.origin with
  | none => exact ⟨fun _ _ _ => rfl, fun _ _ _ => rfl, fun _ => .refl _⟩
  | some origin => exact plain_read16 origin

theorem vectorTo_cases :
    (∃ target, target &&& 1 = 0 ∧ (cpu.vectorTo vector).1 = .ok target) ∨
      ∃ e : CpuError, e.isGuest = true ∧ (cpu.vectorTo vector).1 = .error e := by
  simp only [vectorTo]
  split
  · exact .inl ⟨_, ‹_›, rfl⟩
  · exact .inr ⟨_, rfl, rfl⟩

def handle (cpu : Cpu) (vector : Nat) : Except CpuError CodePtr × Cpu :=
  match cpu.vectorTo vector with
  | (.error error, cpu) => (.error error, cpu)
  | (.ok handler, cpu) => (.ok (cpu.locate handler).1, (cpu.locate handler).2)

theorem handle_error {cpu : Cpu} {vector : Nat} {e : CpuError}
    (h : (cpu.vectorTo vector).1 = .error e) :
    cpu.handle vector = (.error e, (cpu.vectorTo vector).2) := by
  unfold handle
  generalize cpu.vectorTo vector = r at h ⊢
  obtain ⟨handler, taken⟩ := r
  obtain rfl : handler = .error e := h
  rfl

theorem handle_ok {cpu : Cpu} {vector : Nat} {target : UInt32}
    (h : (cpu.vectorTo vector).1 = .ok target) :
    cpu.handle vector = (.ok ((cpu.vectorTo vector).2.locate target).1,
      ((cpu.vectorTo vector).2.locate target).2) := by
  unfold handle
  generalize cpu.vectorTo vector = r at h ⊢
  obtain ⟨handler, taken⟩ := r
  obtain rfl : handler = .ok target := h
  rfl

def framed (cpu : Cpu) (fault : AddressFault) : Cpu :=
  let ir := (cpu.faultOpcode fault).1
  let cpu := (cpu.faultOpcode fault).2
  ((((cpu.enterSupervisor.push32 (cpu.faultPc fault)).push16 cpu.registers.sr).push16 ir).push32
    fault.address).push16 (fault.accessWord ir cpu.registers.supervisor)

theorem takeAddressError_eq :
    cpu.takeAddressError fault = (cpu.framed fault).handle ExceptionVector.addressError := by
  unfold takeAddressError framed
  generalize cpu.faultOpcode fault = r
  obtain ⟨ir, faulted⟩ := r
  rfl

theorem afterWrite_twin (a : RegisterAssignment) (store : CodeStore) (memory : MemoryMap)
    (address : UInt32) (bytes : Nat) (action : DeviceAction) :
    { cpu.twin a store with memory := memory }.afterWrite address bytes action =
      ({ cpu with memory := memory }.afterWrite address bytes action).twin a
        (store.noteWrite cpu.config (memory.canonical address) bytes) := by
  cases action <;> rfl

theorem afterWrite_view (bytes : Nat) (action : DeviceAction) :
    (cpu.afterWrite address bytes action).view = cpu.view := by
  cases action <;> rfl

end Cpu

namespace Coupling.Twins

variable {C : Coupling} {P : Pair → Prop} {x y : Cpu}

variable (h : C.Twins P x y) (address : UInt32) (vector : Nat)
include h

theorem write (w : MemoryMap.Write) :
    C.Twins P
      ({ x with memory := (x.memory.write address w).2 }.afterWrite address w.bytes
        (x.memory.write address w).1)
      ({ y with memory := (y.memory.write address w).2 }.afterWrite address w.bytes
        (y.memory.write address w).1) := by
  obtain ⟨c, s, t, rfl, rfl, hrel⟩ := h
  have hconfig : c.config = C.config := C.config_eq hrel
  refine ⟨{ c with memory := (c.memory.write address w).2 }.afterWrite address w.bytes
    (c.memory.write address w).1, _, _, afterWrite_twin c _ s _ _ _ _,
    afterWrite_twin c _ t _ _ _ _, ?_⟩
  rw [afterWrite_view]
  have hrel' := C.write address w hrel
  rw [← hconfig] at hrel'
  exact hrel'

theorem setA (n : Nat) (value : UInt32) : C.Twins P (x.setA n value) (y.setA n value) :=
  h.change (·.setA n value) (fun _ _ _ => rfl) fun _ => .refl _

theorem setSr (sr : UInt16) : C.Twins P (x.setSr sr) (y.setSr sr) :=
  h.change (·.setSr sr) (fun _ _ _ => rfl) fun _ => .refl _

theorem push16 (value : UInt16) : C.Twins P (x.push16 value) (y.push16 value) := by
  rw [Cpu.push16, Cpu.push16, h.registers]
  exact (h.write _ (.word value)).setA 7 _

theorem push32 (value : UInt32) : C.Twins P (x.push32 value) (y.push32 value) := by
  rw [Cpu.push32, Cpu.push32, h.registers]
  exact (h.write _ (.long value)).setA 7 _

theorem enterSupervisor : C.Twins P x.enterSupervisor y.enterSupervisor := by
  rw [Cpu.enterSupervisor, Cpu.enterSupervisor, h.registers]
  exact h.setSr _

theorem enterException (pc : UInt32) :
    (x.enterException vector pc).1 = (y.enterException vector pc).1 ∧
      C.Twins P (x.enterException vector pc).2 (y.enterException vector pc).2 := by
  have hpushed := (h.enterSupervisor.push32 pc).push16 x.registers.sr
  rw [Cpu.enterException, Cpu.enterException, h.registers]
  exact hpushed.plain (plain_vectorTo vector)

theorem locate {address : UInt32} (heven : address &&& 1 = 0) :
    C.Fitting (C.Lands P) (.ok (x.locate address).1, (x.locate address).2)
      (.ok (y.locate address).1, (y.locate address).2) := by
  rintro ⟨hx, hy⟩
  obtain ⟨c, s, t, rfl, rfl, hrel⟩ := h
  have hfits : (t.locate (c.view.assign C.right) address).2.Fits := by
    rcases hy with hside | hy
    · exact (hside _ _ _ _ hrel address).1 hx
    · exact hy
  obtain ⟨P', q, hkeeps, hadded, hq, hs, ht, hrel'⟩ := C.locate address hrel heven hx hfits
  exact ⟨P', ⟨hkeeps, hadded⟩, ⟨c, _, _, rfl, rfl, hrel'⟩,
    .inl ⟨q, hq, congrArg Except.ok hs, congrArg Except.ok ht⟩⟩

theorem handle : C.Fitting (C.Lands P) (x.handle vector) (y.handle vector) := by
  obtain ⟨hsame, htwins⟩ := h.plain (plain_vectorTo vector)
  rcases x.vectorTo_cases vector with ⟨target, heven, hok⟩ | ⟨e, he, herror⟩
  · rw [handle_ok hok, handle_ok (hsame.symm.trans hok)]
    exact htwins.locate heven
  · rw [handle_error herror, handle_error (hsame.symm.trans herror)]
    exact fun _ => ⟨P, .refl _, htwins, .inr ⟨e, he, rfl, rfl⟩⟩

theorem takeAddressError (fault : AddressFault) :
    C.Fitting (C.Lands P) (x.takeAddressError fault) (y.takeAddressError fault) := by
  obtain ⟨hopcode, htwins⟩ := h.plain (Cpu.plain_faultOpcode fault)
  simp only [Cpu.takeAddressError, ← hopcode]
  generalize (x.faultOpcode fault).1 = ir
  generalize (x.faultOpcode fault).2 = x' at htwins ⊢
  generalize (y.faultOpcode fault).2 = y' at htwins ⊢
  have hpc : y'.faultPc fault = x'.faultPc fault := by
    refine htwins.reading (·.faultPc fault) fun c a s => ?_
    unfold Cpu.faultPc
    split <;> rfl
  rw [hpc, htwins.registers]
  exact (((((htwins.enterSupervisor.push32 _).push16 _).push16 ir).push32 _).push16 _).handle
    ExceptionVector.addressError

theorem resolve (origin : Option UInt32) :
    C.Fitting (C.Lands P) (x.resolve address origin) (y.resolve address origin) := by
  unfold Cpu.resolve
  by_cases heven : address &&& 1 = 0
  · simp only [heven, if_true]
    exact h.locate heven
  · simp only [heven, if_false]
    exact h.takeAddressError _

end Coupling.Twins

end Dynarec68k
