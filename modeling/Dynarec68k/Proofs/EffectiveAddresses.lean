import Dynarec68k.Proofs.FollowedCode

namespace Dynarec68k

open Host Codegen Relation Role

variable {v x : UInt32} {map : MemoryMap}

def IndexReg.value (index : IndexReg) (registers : RegisterFile) : UInt32 :=
  (if index.long then registers.general index.reg
    else Word.signExtend16 (registers.general index.reg)) * index.scale.toUInt32

namespace FullIndex

variable (full : FullIndex) (base : UInt32) (registers : RegisterFile)

def start : UInt32 :=
  (if full.baseSuppressed then 0 else base) + full.baseDisp.toUInt32

def offset : UInt32 :=
  match full.index with
  | some index => index.value registers
  | none => 0

/-- Where the address of an indirection is read. -/
def pointer? : Option UInt32 :=
  match full.memory with
  | .none => none
  | .preIndexed _ => some (full.start base + full.offset registers)
  | .postIndexed _ => some (full.start base)

/-- The address, with the long read there. -/
def address (through : UInt32) : UInt32 :=
  match full.memory with
  | .none => full.start base + full.offset registers
  | .preIndexed outer => through + outer.toUInt32
  | .postIndexed outer => through + full.offset registers + outer.toUInt32

def locate (config : Config) (g : Guest) : Except OddAccess (UInt32 × Guest) :=
  match full.pointer? base g.registers with
  | some x => g.load config .long x >>= fun r => .ok (full.address base g.registers r.1, r.2)
  | none => .ok (full.address base g.registers 0, g)

end FullIndex

namespace Operand

variable (operand : Operand) (pcBase : UInt32) (registers : RegisterFile) (size : Size)

def pointer? : Option UInt32 :=
  match operand with
  | .full reg ext => ext.pointer? (registers.a reg) registers
  | .pcFull ext => ext.pointer? pcBase registers
  | _ => .none

/-- The address of an operand in memory. -/
def address (through : UInt32) : UInt32 :=
  match operand with
  | .indirect reg => registers.a reg
  | .postInc reg => registers.a reg
  | .preDec reg => registers.a reg - stride reg size
  | .displaced reg disp => registers.a reg + disp.toInt32.toUInt32
  | .indexed reg index disp => registers.a reg + index.value registers + disp.toInt32.toUInt32
  | .full reg ext => ext.address (registers.a reg) registers through
  | .absShort address => address
  | .absLong address => address
  | .pcDisplaced disp => pcBase + disp.toUInt32
  | .pcIndexed index disp => pcBase + disp.toUInt32 + index.value registers
  | .pcFull ext => ext.address pcBase registers through
  | _ => 0

/-- The registers once an operand was used. -/
def stepped : RegisterFile :=
  match operand with
  | .postInc reg => registers.setA reg (registers.a reg + stride reg size)
  | .preDec reg => registers.setA reg (registers.a reg - stride reg size)
  | _ => registers

/-- The address, and the guest once it was worked out. -/
def locate (config : Config) (g : Guest) : Except OddAccess (UInt32 × Guest) :=
  match operand with
  | .full reg ext => ext.locate (g.registers.a reg) config g
  | .pcFull ext => ext.locate pcBase config g
  | _ => .ok (operand.address pcBase g.registers size 0,
      { g with registers := operand.stepped g.registers size })

end Operand

/-- No device answers at an address. -/
def MemoryMap.Deviceless (map : MemoryMap) (x : UInt32) : Prop :=
  ∀ i, map.find? (x &&& map.addressMask &&& 0xFFFFFFFE) = some i →
    (map.chunk i).backing.isDevice = false

theorem MemoryMap.read16_deviceless (h : map.Deviceless x) : (map.read16 x).2 = map := by
  cases hi : map.find? (x &&& map.addressMask &&& 0xFFFFFFFE) with
  | none => simp only [read16, hi]
  | some i =>
    cases hread : (map.chunk i).access.read with
    | true => rw [read16_found hi hread (h i hi)]
    | false =>
      simp only [read16, hi]
      change Prod.snd (if (map.chunk i).access.read = true then _ else _) = _
      rw [hread]
      rfl

theorem MemoryMap.read32_deviceless (h : map.Deviceless x) (h' : map.Deviceless (x + 2)) :
    (map.read32 x).2 = map := by
  simp only [read32, read16_deviceless h, read16_deviceless h']

namespace View

/-- One of the scratch registers is known. -/
def holding (g : Guest) (t : Scratch) (v : UInt32) : View :=
  ⟨g, Function.update (fun _ => none) t (some v)⟩

variable {g : Guest} {t : Scratch} {C : RegisterAssignment → Prop} {m : Machine}
  {memory : MemoryMap}

@[simp]
theorem holding_known : (holding g t v).known t = some v := by
  simp only [holding, Function.update_self]

theorem On.holding {σ : View} (h : σ.On C m memory) (hv : σ.known t = some v) :
    (holding σ.guest t v).On C m memory := by
  refine h.weaken rfl fun s w hs => ?_
  by_cases hst : s = t
  · subst hst
    exact hv.trans (holding_known.symm.trans hs)
  · simp only [View.holding, Function.update_of_ne hst] at hs
    cases hs

theorem On.blank {σ : View} (h : σ.On C m memory) : (View.blank σ.guest).On C m memory :=
  h.weaken rfl fun _ _ hv => by cases hv

end View

theorem Config.Own.addr {config : Config} (reg : Fin 8) (a : RegisterAssignment)
    (ha : config.Own a) : (Spot.guest (Fin.natAdd 8 reg)).place a = config.addrPlace reg := by
  rw [ha]
  rfl

section

variable {config : Config} {needs : Needs} {E : OddAccess → Prop} {A : Allowance config needs E}
  {g : Guest} {t : Scratch} (file : RegisterFile) (reg : Fin 8)

/-- The address is in a scratch register. -/
abbrev located (config : Config) (t : Scratch) (r : UInt32 × Guest) : Fact :=
  (View.holding r.2 t r.1).On config.Own

theorem RegisterFile.general_addr : file.general (Fin.natAdd 8 reg) = file.a reg := by
  rw [general, Fin.val_natAdd, if_neg (by omega), Nat.add_sub_cancel_left]

theorem RegisterFile.setGeneral_addr (v : UInt32) :
    file.setGeneral (Fin.natAdd 8 reg) v = file.setA reg v := by
  rw [setGeneral, Fin.val_natAdd, if_neg (by omega), Nat.add_sub_cancel_left]

theorem Guest.load_ok {g : Guest} {size : Size} {r : UInt32 × Guest}
    (h : g.load config size x = .ok r) : r.2.registers = g.registers := by
  unfold Guest.load at h
  split at h
  · cases h
  · cases h
    rfl

theorem View.get_scratch {σ : View} (ht : t ≠ .cycles) (hv : σ.known t = some v) :
    σ.get (.scratch t) = some v :=
  (if_neg ht).trans hv

variable (ht : t ≠ .cycles)
include ht

theorem mov_leads {σ : View} {s : Spot} {p : Place} (hp : ∀ a, config.Own a → s.place a = p)
    (hs : σ.get s = some v) : Leads A (σ.On config.Own) (mov p (.reg t.reg) .long)
      ((View.holding σ.guest t v).On config.Own) :=
  (Leads.mov hp hs (d := .scratch t) (fun _ _ => rfl) (Scratch.place_ne ht)
    (bne_iff_ne.mpr ht)).mono fun _ _ hview => hview.holding (Function.update_self ..)

theorem addDisplacement_leads (disp : Int32) : Leads A ((View.holding g t v).On config.Own)
    (addDisplacement disp t.reg) ((View.holding g t (v + disp.toUInt32)).On config.Own) := by
  unfold addDisplacement
  split
  · rename_i hzero
    rw [hzero, show Int32.toUInt32 0 = 0 from rfl, UInt32.add_zero]
    exact .nil
  · exact (Leads.add (s := .const _) (d := .scratch t) (fun _ _ => rfl) rfl (fun _ _ => rfl)
      (Scratch.place_ne ht) (bne_iff_ne.mpr ht) (View.get_scratch ht View.holding_known)).mono
        fun _ _ hview => hview.holding (Function.update_self ..)

omit ht in
theorem scaleIndex_leads {σ : View} (shift : Fin 4) (hv : σ.known .temp = some v) :
    Leads A (σ.On config.Own) (scaleIndex shift)
      ((σ.set (v * (1 <<< shift.val : Nat).toUInt32) (.scratch .temp)).On config.Own) := by
  unfold scaleIndex
  split
  · rename_i hzero
    refine Leads.nil.mono fun m memory hview => hview.weaken rfl fun s w hs => ?_
    rw [hzero, show v * ((1 <<< (0 : Fin 4).val : Nat).toUInt32) = v from UInt32.mul_one v] at hs
    by_cases hst : s = .temp
    · subst hst
      exact hv.trans hs
    · simp only [View.set, Function.update_of_ne hst] at hs
      exact hs
  · rename_i hne
    refine .op rfl (Op.spares_of_writes rfl (by decide)) fun m m' memory _ hview hperform a ha => ?_
    have hcount : ∀ shift : Fin 4, shift.val.toUInt8.toNat = shift.val := by decide
    have hreg : m.state.reg temp = v := (hview a ha).known .temp v (by decide) hv
    have hvalue : (Shift.shiftLeft .long v shift.val).1 = v * (1 <<< shift.val : Nat).toUInt32 := by
      apply UInt32.toNat_inj.mp
      change (v.toNat <<< shift.val % 2 ^ 32).toUInt32.toNat = _
      rw [UInt32.toNat_ofNat', UInt32.toNat_mul, UInt32.toNat_ofNat', Nat.shiftLeft_eq,
        Nat.shiftLeft_eq, Nat.one_mul, Nat.mod_mod, Nat.mul_mod_mod]
    simp only [Machine.perform, Machine.count, hcount, Fin.val_eq_zero_iff, hne, if_false,
      Machine.read, hreg, and_mask_long, bind, Except.bind] at hperform
    rw [← hvalue]
    cases hperform
    exact ((hview a ha).setFlags _).setReg (t := .temp) (by decide) _

theorem addIndex_leads (index : IndexReg) (htemp : t ≠ .temp) :
    Leads A ((View.holding g t v).On config.Own) (addIndex config index t.reg)
      ((View.holding g t (v + index.value g.registers)).On config.Own) := by
  have hindex : Leads A ((View.holding g t v).On config.Own)
      (if index.long then mov (config.generalPlace index.reg) (.reg temp) .long
        else movsx (config.generalPlace index.reg) temp .word .long)
      (((View.holding g t v).set (if index.long then g.registers.general index.reg
        else Word.signExtend16 (g.registers.general index.reg)) (.scratch .temp)).On
          config.Own) := by
    cases index.long with
    | true =>
      exact .mov (s := .guest index.reg) (d := .scratch .temp) (fun _ h => h ▸ rfl) rfl
        (fun _ _ => rfl) (by decide) rfl
    | false =>
      exact .extend (s := .guest index.reg) (t := .temp) (fun _ h => h ▸ rfl) rfl (by decide)
  refine ((hindex.append (scaleIndex_leads index.shift rfl)).append (.add (s := .scratch .temp)
    (d := .scratch t) (fun _ _ => rfl) rfl (fun _ _ => rfl) (Scratch.place_ne ht)
    (bne_iff_ne.mpr ht) (View.get_scratch ht ?_))).mono fun _ _ hview =>
      hview.holding (Function.update_self ..)
  simp only [View.set, Function.update_of_ne htemp, View.holding_known]

theorem addIndex?_leads (full : FullIndex) (htemp : t ≠ .temp) :
    Leads A ((View.holding g t v).On config.Own) (addIndex? config full.index t.reg)
      ((View.holding g t (v + full.offset g.registers)).On config.Own) := by
  unfold FullIndex.offset
  cases full.index with
  | none =>
    rw [UInt32.add_zero]
    exact .nil
  | some index => exact addIndex_leads ht index htemp

theorem fullAddress_follows {s : Spot} {b : UInt32} {p : Place} {i : Nat} (full : FullIndex)
    (hp : ∀ a, config.Own a → s.place a = p) (hbase : (View.blank g).get s = some b) :
    Follows A (i + 1) ((View.blank g).On config.Own) (fullAddress config p full t.reg) i
      (full.locate b config g) (located config t) := by
  have hstart : Leads A ((View.blank g).On config.Own)
      (mov (if full.baseSuppressed then .imm 0 else p) (.reg scratch1) .long ++
        addDisplacement full.baseDisp scratch1)
      ((View.holding g .first (full.start b)).On config.Own) := by
    unfold FullIndex.start
    refine .append ?_ (addDisplacement_leads (t := .first) (by decide) _)
    cases full.baseSuppressed with
    | true => exact mov_leads (t := .first) (s := .const 0) (by decide) (fun _ _ => rfl) rfl
    | false => exact mov_leads (t := .first) (by decide) hp hbase
  have hread {g : Guest} {x : UInt32} : Follows A (i + 1) ((View.holding g .first x).On config.Own)
      (callRead .long) i (g.load config .long x) (located config .first) :=
    (Follows.read (fun _ => .inl) rfl rfl).mono fun _ _ _ _ hview => hview.holding rfl
  have hmiddle : Follows A (i + 1) ((View.holding g .first (full.start b)).On config.Own)
      (match full.memory with
        | .none => addIndex? config full.index scratch1
        | .preIndexed outer => addIndex? config full.index scratch1 ++ callRead .long ++
            addDisplacement outer scratch1
        | .postIndexed outer => callRead .long ++ addIndex? config full.index scratch1 ++
            addDisplacement outer scratch1) i
      (full.locate b config g) (located config .first) := by
    unfold FullIndex.locate FullIndex.pointer? FullIndex.address
    cases full.memory with
    | none =>
      exact (Follows.done (V := located config .first) (r := (_, g))
        (addIndex?_leads (t := .first) (by decide) full (by decide))).sooner 1
    | preIndexed outer =>
      exact ((Follows.after (addIndex?_leads (t := .first) (by decide) full (by decide))
        hread).before fun r _ => addDisplacement_leads (t := .first) (by decide) outer).map
          fun r _ _ _ hview => hview
    | postIndexed outer =>
      refine ((hread.before fun r hr =>
        addIndex?_leads (t := .first) (by decide) full (by decide)).before fun r _ =>
          addDisplacement_leads (t := .first) (by decide) outer).map fun r m memory hr hview => ?_
      rw [Guest.load_ok hr] at hview
      exact hview
  refine (Follows.after hstart hmiddle).before fun r _ => ?_
  split
  · rename_i hfirst
    obtain rfl : t = .first := Scratch.reg_injective hfirst
    exact .nil
  · exact mov_leads ht (s := .scratch .first) (fun _ _ => rfl) (View.get_scratch (by decide)
      View.holding_known)

theorem addressInto_follows {operand : Operand} (hmemory : operand.isMemory = true)
    (htemp : t ≠ .temp) (pcBase : UInt32) (size : Size) {i : Nat} :
    Follows A (i + 1) ((View.blank g).On config.Own)
      (addressInto config pcBase operand size t.reg) i (operand.locate pcBase size config g)
      (located config t) := by
  have hplace (reg : Fin 8) : config.addrPlace reg ≠ .reg cycles :=
    Built.place_guest_ne config.registerAssignment (Fin.natAdd 8 reg) .cycles
  have hbase (g : Guest) (reg : Fin 8) : Leads A ((View.blank g).On config.Own)
      (mov (config.addrPlace reg) (.reg t.reg) .long)
      ((View.holding g t (g.registers.a reg)).On config.Own) := by
    rw [← RegisterFile.general_addr]
    exact mov_leads ht (Config.Own.addr reg) rfl
  have hload (x : UInt32) : Leads A ((View.blank g).On config.Own) (load x t.reg)
      ((View.holding g t x).On config.Own) :=
    mov_leads ht (s := .const x) (fun _ _ => rfl) rfl
  have hdone {f : Fragment} {r : UInt32 × Guest}
      (h : Leads A ((View.blank g).On config.Own) f (located config t r)) :
      Follows A (i + 1) ((View.blank g).On config.Own) f i (.ok r) (located config t) :=
    (Follows.done (V := located config t) h).sooner 1
  cases operand with
  | indirect reg => exact hdone (hbase g reg)
  | postInc reg =>
    have hstep := Leads.add (A := A) (s := .const (stride reg size))
      (σ := View.holding g t (g.registers.a reg)) (fun _ _ => rfl) rfl (Config.Own.addr reg)
      (hplace reg) rfl (congrArg some (g.registers.general_addr reg))
    rw [View.set, RegisterFile.setGeneral_addr] at hstep
    exact hdone ((hbase g reg).append hstep)
  | preDec reg =>
    have hstep := Leads.sub (A := A) (s := .const (stride reg size)) (σ := View.blank g)
      (fun _ _ => rfl) rfl (Config.Own.addr reg) (hplace reg) rfl
      (congrArg some (g.registers.general_addr reg))
    rw [View.set, RegisterFile.setGeneral_addr] at hstep
    have hlast := hbase
      { g with registers := g.registers.setA reg (g.registers.a reg - stride reg size) } reg
    rw [RegisterFile.a_setA, if_pos rfl] at hlast
    exact hdone (hstep.append hlast)
  | displaced reg disp => exact hdone ((hbase g reg).append (addDisplacement_leads ht _))
  | indexed reg index disp =>
    exact hdone (((hbase g reg).append (addIndex_leads ht index htemp)).append
      (addDisplacement_leads ht _))
  | full reg full =>
    exact fullAddress_follows ht full (Config.Own.addr reg) (congrArg some (g.registers.general_addr reg))
  | absShort address => exact hdone (hload address)
  | absLong address => exact hdone (hload address)
  | pcDisplaced disp => exact hdone (hload _)
  | pcIndexed index disp => exact hdone ((hload _).append (addIndex_leads ht index htemp))
  | pcFull full => exact fullAddress_follows ht (s := .const pcBase) full (fun _ _ => rfl) rfl
  | _ => cases hmemory

end

namespace Operand

variable {operand : Operand} {pcBase : UInt32} (size : Size) (config : Config) {g : Guest}

theorem locate_even (h : ∀ x, operand.pointer? pcBase g.registers = some x → x &&& 1 = 0) :
    ∃ g', operand.locate pcBase size config g = .ok (operand.address pcBase g.registers size
        ((operand.pointer? pcBase g.registers).elim 0 fun x => (g.memory.read32 x).1), g') ∧
      g'.registers = operand.stepped g.registers size ∧
      g'.memory = (operand.pointer? pcBase g.registers).elim g.memory fun x =>
        (g.memory.read32 x).2 := by
  have hfull (ext : FullIndex) (base : UInt32)
      (h : ∀ x, ext.pointer? base g.registers = some x → x &&& 1 = 0) :
      ∃ g', ext.locate base config g = .ok (ext.address base g.registers
          ((ext.pointer? base g.registers).elim 0 fun x => (g.memory.read32 x).1), g') ∧
        g'.registers = g.registers ∧
        g'.memory = (ext.pointer? base g.registers).elim g.memory fun x =>
          (g.memory.read32 x).2 := by
    unfold FullIndex.locate
    cases hpointer : ext.pointer? base g.registers with
    | none => exact ⟨g, rfl, rfl, rfl⟩
    | some x =>
      simp only [Guest.load_even g config (h x hpointer)]
      exact ⟨_, rfl, rfl, rfl⟩
  cases operand with
  | full reg ext => exact hfull ext _ h
  | pcFull ext => exact hfull ext _ h
  | _ => exact ⟨_, rfl, rfl, rfl⟩

end Operand

/-- Effective addresses are those of the modes. Let a run be in the code of an instruction, after
whatever was done before, where the address of an operand in memory is worked out. Then it comes to
the end of that code with the address in the scratch register asked for. An is changed by the step
of a predecrement or a postincrement alone, and memory by no more than reading a long for an
indirection, which leaves plain memory as it is. -/
theorem effective_address_computed {config : Config} {inst : Instruction} {k : Nat} {s : Session}
    (hat : s.At config inst k) {operand : Operand} (hmemory : operand.isMemory = true)
    {size : Size} {t : Scratch} (hfree : t ≠ .temp ∧ t ≠ .cycles)
    (hstands : Fragment.StandsAt (addressInto config inst.pcBase operand size t.reg)
      (inst.body config) k)
    (heven : ∀ x, operand.pointer? (inst.address + 2) s.asked.registers = some x → x &&& 1 = 0) :
    ∃ last, ReflTransGen Session.Advances s last ∧
      last.site = s.site +
        (addressInto config inst.pcBase operand size t.reg).length.toUInt32 ∧
      last.machine.state.reg t.reg = operand.address (inst.address + 2) s.asked.registers size
        ((operand.pointer? (inst.address + 2) s.asked.registers).elim 0 fun x =>
          (s.cpu.memory.read32 x).1) ∧
      last.asked.registers = operand.stepped s.asked.registers size ∧
      last.cpu.memory = ((operand.pointer? (inst.address + 2) s.asked.registers).elim s.cpu.memory
        fun x => (s.cpu.memory.read32 x).2) ∧
      ((∀ x, operand.pointer? (inst.address + 2) s.asked.registers = some x →
          s.cpu.memory.Deviceless x ∧ s.cpu.memory.Deviceless (x + 2)) →
        last.cpu.memory = s.cpu.memory) := by
  obtain ⟨g, hlocate, hregisters, hmap⟩ :=
    Operand.locate_even (g := s.asked.guest) size config heven
  have hfollows : Follows (.accesses config fun e =>
      operand.locate inst.pcBase size config s.asked.guest = .error e) 1
      ((View.blank s.asked.guest).On config.Own)
      (addressInto config inst.pcBase operand size t.reg) 0
      (operand.locate inst.pcBase size config s.asked.guest) (located config t) :=
    addressInto_follows hfree.2 hmemory hfree.1 inst.pcBase size
  obtain ⟨last, hpath, houter, hlast⟩ := hat.follows hstands hfollows hat.blank
  rcases hlast with ⟨r, hr, hsite, -, hview⟩ | ⟨e, he, -⟩
  · cases hlocate.symm.trans hr
    obtain ⟨hguest, hknown⟩ := hview _ rfl
    have hmemory : last.cpu.memory = g.memory := congrArg Guest.memory hguest
    have hconfig : last.cpu.config = config := (congrArg Cpu.config houter).trans hat.config_eq
    refine ⟨last, hpath, hsite, hknown t _ hfree.2 View.holding_known, ?_, hmemory.trans hmap,
      fun hplain => hmemory.trans (hmap.trans ?_)⟩
    · refine Eq.trans ?_ ((congrArg Guest.registers hguest).trans hregisters)
      rw [← hconfig]
      rfl
    · change Option.elim (operand.pointer? (inst.address + 2) s.asked.registers) s.cpu.memory _ = _
      cases hpointer : operand.pointer? (inst.address + 2) s.asked.registers with
      | none => rfl
      | some x => exact MemoryMap.read32_deviceless (hplain x hpointer).1 (hplain x hpointer).2
  · cases hlocate.symm.trans he

/-- A processor in front of JMP ([4,A0],D1.W*2,2). -/
def Cpu.indirect : Cpu :=
  ((fresh { Config.default with model := .m68020 }
    (.program 0xFFFFFFFF 0xFFFFFFFF [0x4EF0, 0x1326, 4, 2])).setA 0 12).setD 1 0xFFFE

/-- The long at address 16, less four and with two added. -/
theorem effective_address_computed_indirect :
    ∃ s last : Session, ReflTransGen Session.Advances s last ∧ s.asked.registers.a 0 = 12 ∧
      s.asked.registers.d 1 = 0xFFFE ∧ last.machine.state.reg scratch1 = 0x4E754E73 := by
  let inst := Instruction.decode .m68020 0 [0x4EF0, 0x1326, 4, 2]
  have hreaches : Cpu.indirect.Reaches 20 inst 3 1 fun s =>
      s.cpu.store.code.ops.size < 2 ^ 31 ∧ s.asked.registers.a 0 = 12 ∧
      s.asked.registers.d 1 = 0xFFFE ∧ inst.src.pointer? 2 s.asked.registers = some 16 ∧
      inst.src.address 2 s.asked.registers .long (s.cpu.memory.read32 16).1 = 0x4E754E73 := by
    decide +kernel
  have hhistory : Moment.History (fun _ => True) _ (.idle Cpu.indirect) _ :=
    .next (.next .start (.operate _ (.setA 0 12) True.intro))
      (.operate _ (.setD 1 0xFFFE) True.intro)
  obtain ⟨-, s, past, -, hhistory, hmade, hsite, hfits, hbase, hindex, hpointer, haddress⟩ :=
    hreaches.made hhistory (by
      simp only [List.forall_mem_cons]
      exact ⟨rfl, rfl, rfl, List.forall_mem_nil _⟩)
  have hat : s.At { Config.default with model := .m68020 } inst 1 :=
    ⟨_, _, _, past, 20, Cpu.isNew_program (by decide) rfl, hhistory, hmade, hsite, by decide, hfits⟩
  have hstands : Fragment.StandsAt
      (addressInto { Config.default with model := .m68020 } inst.pcBase inst.src .long scratch1)
      (inst.body { Config.default with model := .m68020 }) 1 := by
    unfold Fragment.StandsAt
    decide +kernel
  obtain ⟨last, hpath, -, hresult, -⟩ := effective_address_computed hat rfl (t := .first)
    (by decide) hstands fun x hx => by
      cases hpointer.symm.trans hx
      rfl
  refine ⟨s, last, hpath, hbase, hindex, hresult.trans ?_⟩
  rw [show inst.address + 2 = 2 from rfl, hpointer]
  exact haddress

end Dynarec68k
