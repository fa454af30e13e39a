import Dynarec68k.Proofs.EffectiveAddresses

namespace Dynarec68k

open Host Codegen Relation

variable {config : Config} {E : OddAccess → Prop} {g : Guest} {inst : Instruction} {x y : Cpu}

/-- So many clocks later. -/
def Guest.spend (g : Guest) (config : Config) (clocks : Nat) : Guest :=
  { g with cycle := g.cycle + config.cycles clocks }

namespace Operand

variable (operand : Operand)

/-- Where a list begins. An is stepped at its end only. -/
def listStart (pcBase : UInt32) (size : Size) (config : Config) (g : Guest) : Except OddAccess Walk :=
  match operand with
  | .preDec reg => .ok ⟨g, g.registers.a reg⟩
  | .postInc reg => .ok ⟨g, g.registers.a reg⟩
  | _ => operand.locate pcBase size config g >>= fun r => .ok ⟨r.2, r.1⟩

def listEnd (w : Walk) : Guest :=
  match operand with
  | .preDec reg => { w.guest with registers := w.guest.registers.setA reg w.address }
  | .postInc reg => { w.guest with registers := w.guest.registers.setA reg w.address }
  | _ => w.guest

end Operand

namespace Instruction

variable (inst : Instruction)

def moveList (encoded : UInt16) (operand : Operand) (toMemory : Bool) (config : Config) (g : Guest) :
    Except OddAccess Guest := do
  let w ← operand.listStart inst.pcBase inst.size config
    (g.spend config (8 + controlClocks operand))
  let w ← ListMove.whole ⟨inst.size, toMemory, operand.isPreDec⟩ config w
    (normalizeRegList encoded operand.isPreDec)
  return operand.listEnd w

def moveMultiple (config : Config) (g : Guest) : Except OddAccess Guest :=
  match inst.src, inst.dst with
  | .regList mask, operand => inst.moveList mask operand true config g
  | operand, .regList mask => inst.moveList mask operand false config g
  | _, _ => .ok g

end Instruction

theorem charge_leads {σ : View} (clocks : Nat) :
    Leads (.accesses config E) (σ.On config.Own) (charge config clocks)
      (View.On ⟨σ.guest.spend config clocks, σ.known⟩ config.Own) := by
  refine fun i => .charge fun spent m m' memory hat hticks hclock => ⟨trivial, fun a ha => ?_⟩
  obtain ⟨hguest, hknown⟩ := hat.2 a ha
  refine ⟨?_, fun s v hs hv => (hticks.reg _ fun heq => ?_).trans (hknown s v hs hv)⟩
  · have hspill : a.spill m' = a.spill m :=
      a.spill_congr hticks.file fun r hlow hhigh => hticks.reg r fun heq => by
        subst heq
        revert hlow hhigh
        decide
    rw [← hguest, Guest.seen, hspill, hclock]
    rfl
  · exact hs (Scratch.reg_injective (t := .cycles) heq)

section

variable {operand : Operand} {i : Nat}

theorem listAddress_follows (hmemory : operand.isMemory = true) :
    Follows (.accesses config E) (i + 1) ((View.blank g).On config.Own)
      (listAddress config inst operand) i (operand.listStart inst.pcBase inst.size config g)
      (Walk.plain config) := by
  have hbase (reg : Fin 8) : Leads (.accesses config E) ((View.blank g).On config.Own)
      (mov (config.addrPlace reg) (.reg Role.scratch2) .long)
      (Walk.plain config ⟨g, g.registers.a reg⟩) := by
    rw [← RegisterFile.general_addr]
    exact mov_leads (t := .second) (by decide) (Config.Own.addr reg) rfl
  cases operand with
  | preDec reg | postInc reg => exact (Follows.done (hbase reg)).sooner 1
  | _ =>
    exact (addressInto_follows (t := .second) (by decide) hmemory (by decide) inst.pcBase
      inst.size).map fun _ _ _ _ hview => hview

theorem listUpdate_leads (operand : Operand) (w : Walk) :
    Leads (.accesses config E) (w.plain config) (listUpdate config operand)
      ((View.blank (operand.listEnd w)).On config.Own) := by
  have hnone (reg : Fin 8) : Leads (.accesses config E) (w.plain config)
      (mov (.reg Role.scratch2) (config.addrPlace reg) .long)
      ((View.blank { w.guest with registers := w.guest.registers.setA reg w.address }).On
        config.Own) := by
    rw [← RegisterFile.setGeneral_addr]
    exact (Leads.mov (C := config.Own) (σ := w.view fun _ => none) (s := .scratch .second)
      (d := .guest (Fin.natAdd 8 reg)) (fun _ _ => rfl) rfl (Config.Own.addr reg)
      (Built.place_guest_ne config.registerAssignment (Fin.natAdd 8 reg) .cycles) rfl).mono
        fun _ _ hview => hview.blank
  cases operand with
  | preDec reg | postInc reg => exact hnone reg
  | _ => exact Leads.nil.mono fun _ _ hview => hview.blank

theorem moveList_follows (hmemory : operand.isMemory = true) (encoded : UInt16) (toMemory : Bool) :
    Follows (.accesses config E) (i + 18) ((View.blank g).On config.Own)
      (moveList config inst encoded operand toMemory) i
      (inst.moveList encoded operand toMemory config g)
      fun g => (View.blank g).On config.Own := by
  have hcode : moveList config inst encoded operand toMemory = charge config
      (8 + controlClocks operand) ++ (listAddress config inst operand ++ (((if decide
        (Word.population (normalizeRegList encoded operand.isPreDec) ≤
          config.movemInlineLimit.toNat) = true then
        transferStraight config ⟨inst.size, toMemory, operand.isPreDec⟩
          (normalizeRegList encoded operand.isPreDec)
        else transferLoop config ⟨inst.size, toMemory, operand.isPreDec⟩
          (normalizeRegList encoded operand.isPreDec)) ++ if toMemory then []
        else mov (.reg Role.scratch2) (.reg Role.scratch1) .long ++ callRead .word) ++
      listUpdate config operand)) := by
    simp only [moveList, decide_eq_true_eq, List.append_assoc]
  rw [hcode]
  refine .after (charge_leads _) ((listAddress_follows (i := i + 17) hmemory).bind fun w _ => ?_)
  exact ((transferList_follows ⟨inst.size, toMemory, operand.isPreDec⟩ w _ _).before fun w' _ =>
    listUpdate_leads operand w').map fun _ _ _ _ hview => hview

end

theorem moveMultiple_follows (hop : inst.op = .movem)
    (hshaped : (CodeUnit.instruction inst).Shaped) {i : Nat} :
    Follows (.accesses config E) (i + 18) ((View.blank g).On config.Own) (inst.body config) i
      (inst.moveMultiple config g) fun g => (View.blank g).On config.Own := by
  have hbody : inst.body config = Codegen.moveMultiple config inst := by
    rw [Instruction.body, hop]
  have hmemory : (inst.src.isMemory || inst.dst.isMemory) = true := by
    have hform := hshaped.1
    rw [Form.shaped, hop] at hform
    exact (Bool.and_eq_true_iff.mp hform).1
  have hlist : (inst.src.isRegList || inst.dst.isRegList) = true := by
    have happly := hshaped.2.resolve_left (by rw [hop]; decide)
    rwa [Form.apt, hop] at happly
  rw [hbody]
  unfold Codegen.moveMultiple Instruction.moveMultiple
  cases hsrc : inst.src with
  | regList mask =>
    rw [hsrc] at hmemory
    exact moveList_follows hmemory mask true
  | _ =>
    rw [hsrc] at hlist
    obtain ⟨mask, hdst⟩ := Operand.exists_regList hlist
    rw [hdst, hsrc, Bool.or_comm] at hmemory
    rw [hdst]
    refine moveList_follows ?_ mask false
    exact hmemory

/-- All that a guest can tell of its processor. -/
def Cpu.face (cpu : Cpu) : Guest × UInt32 :=
  (cpu.guest, cpu.pc)

/-- No guest can tell them apart, nor how fast they are. -/
structure Cpu.Alike (x y : Cpu) : Prop where
  registers : x.registers = y.registers
  memory : x.memory = y.memory
  cycle : x.cycle = y.cycle
  pc : x.pc = y.pc
  clock : x.config.cycles = y.config.cycles

namespace Cpu.Alike

variable (h : x.Alike y)
include h

theorem face : x.face = y.face := by
  rw [Cpu.face, guest, h.registers, h.memory, h.cycle, h.pc]
  rfl

theorem read (f : MemoryMap → MemoryMap) :
    { x with memory := f x.memory }.Alike { y with memory := f y.memory } :=
  ⟨h.registers, congrArg f h.memory, h.cycle, h.pc, h.clock⟩

theorem setA (n : Nat) (value : UInt32) : (x.setA n value).Alike (y.setA n value) :=
  ⟨congrArg (·.setA n value) h.registers, h.memory, h.cycle, h.pc, h.clock⟩

theorem enterSupervisor : x.enterSupervisor.Alike y.enterSupervisor := by
  refine ⟨?_, h.memory, h.cycle, h.pc, h.clock⟩
  simp only [Cpu.enterSupervisor, setSr, updateLimit, h.registers]

theorem written (f : MemoryMap → DeviceAction × MemoryMap) (address : UInt32) (bytes : Nat) :
    ({ x with memory := (f x.memory).2 }.afterWrite address bytes (f x.memory).1).Alike
      ({ y with memory := (f y.memory).2 }.afterWrite address bytes (f y.memory).1) := by
  rw [h.memory]
  cases (f y.memory).1 <;> exact ⟨h.registers, rfl, h.cycle, h.pc, h.clock⟩

theorem push16 (value : UInt16) : (x.push16 value).Alike (y.push16 value) := by
  unfold Cpu.push16
  rw [h.registers]
  exact (h.written (·.write16 _ value) _ 2).setA 7 _

theorem push32 (value : UInt32) : (x.push32 value).Alike (y.push32 value) := by
  unfold Cpu.push32
  rw [h.registers]
  exact (h.written (·.write32 _ value) _ 4).setA 7 _

theorem framed (fault : AddressFault) : (x.framed fault).Alike (y.framed fault) := by
  have hopcode : (x.faultOpcode fault).1 = (y.faultOpcode fault).1 ∧
      (x.faultOpcode fault).2.Alike (y.faultOpcode fault).2 := by
    unfold faultOpcode
    split
    · rename_i origin _
      exact ⟨congrArg (fun map : MemoryMap => (map.read16 origin).1) h.memory,
        h.read fun map => (map.read16 origin).2⟩
    · exact ⟨rfl, h⟩
  have hpc : (x.faultOpcode fault).2.faultPc fault = (y.faultOpcode fault).2.faultPc fault := by
    unfold faultPc
    rw [hopcode.2.pc]
  simp only [Cpu.framed, hopcode.1, hopcode.2.registers, hpc]
  exact ((((hopcode.2.enterSupervisor.push32 _).push16 _).push16 _).push32 _).push16 _

theorem vectorTo (vector : Nat) : (x.vectorTo vector).1 = (y.vectorTo vector).1 ∧
    (x.vectorTo vector).2.Alike (y.vectorTo vector).2 := by
  simp only [Cpu.vectorTo, read32, spend, h.memory, h.cycle, h.clock]
  by_cases heven : (y.memory.read32 (4 * vector).toUInt32).1 &&& 1 = 0
  · simp only [heven, ↓reduceIte]
    exact ⟨trivial, h.registers, rfl, rfl, rfl, h.clock⟩
  · simp only [heven, ↓reduceIte]
    exact ⟨trivial, h.registers, rfl, rfl, h.pc, h.clock⟩

theorem takeAddressError (fault : AddressFault) :
    (x.takeAddressError fault).2.Alike (y.takeAddressError fault).2 := by
  obtain ⟨htarget, hentered⟩ := (h.framed fault).vectorTo ExceptionVector.addressError
  rw [takeAddressError_eq, takeAddressError_eq]
  rcases hvector : ((y.framed fault).vectorTo ExceptionVector.addressError).1 with e | target
  · rw [handle_error hvector, handle_error (htarget.trans hvector)]
    exact hentered
  · rw [handle_ok hvector, handle_ok (htarget.trans hvector)]
    exact ⟨hentered.registers, hentered.memory, hentered.cycle, hentered.pc, hentered.clock⟩

end Cpu.Alike

theorem Session.At.shaped {s : Session} {k : Nat} (h : s.At config inst k) :
    (CodeUnit.instruction inst).Shaped := by
  obtain ⟨map, P, p, hunit, -, hamid⟩ := h.amid
  rw [← hunit]
  exact hamid.linked.shaped

/-- A run through the code of an instruction ends with what the code computes. -/
theorem Session.At.computes {s : Session} (h : s.At config inst 0) {r : Except OddAccess Guest}
    {i j : Nat} (hfollows : Follows (.accesses config fun e => r = .error e) i
      ((View.blank s.asked.guest).On config.Own) (inst.body config) j r
      fun g => (View.blank g).On config.Own) :
    ∃ t, ReflTransGen Advances s t ∧ t.cpu.outer = s.cpu.outer ∧
      ((t.site = s.site + (inst.body config).length.toUInt32 ∧ r = .ok t.asked.guest) ∨
        ∃ e, r = .error e ∧ t.Fails inst e) := by
  obtain ⟨t, hpath, houter, hend⟩ := h.follows (Fragment.standsAt_self _) hfollows h.blank
  refine ⟨t, hpath, houter, hend.imp_left ?_⟩
  rintro ⟨g, rfl, hsite, -, hview⟩
  have hconfig : t.cpu.config = config := (congrArg Cpu.config houter).trans h.config_eq
  refine ⟨hsite, congrArg Except.ok ((hview _ rfl).guest.symm.trans ?_)⟩
  rw [← hconfig]
  rfl

/-- The unrolled and the looped MOVEM are the same instruction. Let two runs that the guest cannot
tell apart be at the beginning of a MOVEM, in processors with whatever limits for lists that are
written out. Then both come to its end, or both to the same odd access. Neither there nor in the
exception that is then taken can they be told apart. -/
theorem list_code_unseen (hop : inst.op = .movem) {limit : UInt32} {s s' : Session}
    (hat : s.At config inst 0) (hat' : s'.At { config with movemInlineLimit := limit } inst 0)
    (hsame : s'.asked.face = s.asked.face) :
    ∃ t t', ReflTransGen Session.Advances s t ∧ ReflTransGen Session.Advances s' t' ∧
      t'.asked.face = t.asked.face ∧
      (t.site = s.site + (inst.body config).length.toUInt32 ∧
          t'.site = s'.site + (inst.body { config with movemInlineLimit := limit }).length.toUInt32 ∨
        ∃ e, t.Fails inst e ∧ t'.Fails inst e ∧
          (t'.asked.takeAddressError ⟨e.address, e.kind, some inst.address⟩).2.face =
            (t.asked.takeAddressError ⟨e.address, e.kind, some inst.address⟩).2.face) := by
  obtain ⟨hguest, hpc⟩ := Prod.mk.inj hsame
  obtain ⟨t, hpath, houter, hend⟩ := hat.computes (moveMultiple_follows (i := 0) hop hat.shaped)
  obtain ⟨t', hpath', houter', hend'⟩ :=
    hat'.computes (moveMultiple_follows (i := 0) hop hat'.shaped)
  have hresult : inst.moveMultiple { config with movemInlineLimit := limit } s'.asked.guest =
      inst.moveMultiple config s.asked.guest := by
    rw [hguest]
    rfl
  rw [hresult] at hend'
  have hclock : t'.asked.config.cycles = t.asked.config.cycles := by
    have hconfig : t.asked.config = config := (congrArg Cpu.config houter).trans hat.config_eq
    have hconfig' : t'.asked.config = _ := (congrArg Cpu.config houter').trans hat'.config_eq
    rw [hconfig, hconfig']
    rfl
  have hstill : t'.asked.pc = t.asked.pc :=
    (congrArg Cpu.pc houter').trans (hpc.trans (congrArg Cpu.pc houter).symm)
  have halike (h : t'.asked.guest = t.asked.guest) : t'.asked.Alike t.asked :=
    ⟨congrArg Guest.registers h, congrArg Guest.memory h, congrArg Guest.cycle h, hstill, hclock⟩
  refine ⟨t, t', hpath, hpath', ?_⟩
  rcases hend with ⟨hsite, hok⟩ | ⟨e, herror, hfails⟩
  · rcases hend' with ⟨hsite', hok'⟩ | ⟨e, herror, -⟩
    · exact ⟨(halike (Except.ok.inj (hok'.symm.trans hok))).face, .inl ⟨hsite, hsite'⟩⟩
    · cases hok.symm.trans herror
  · rcases hend' with ⟨-, hok'⟩ | ⟨e', herror', hfails'⟩
    · cases herror.symm.trans hok'
    · cases herror.symm.trans herror'
      have h := halike (hfails'.guest.trans hfails.guest.symm)
      exact ⟨h.face, .inr ⟨e, hfails, hfails', (h.takeAddressError _).face⟩⟩

/-- A processor in front of MOVEM.L (A0)+,D0/D1. -/
def Cpu.restoring (limit : UInt32) : Cpu :=
  fresh { Config.default with movemInlineLimit := limit } (.program 0xFFFFFF 3 [0x4CD8, 3])

/-- Written out and in a loop. -/
theorem list_code_unseen_both :
    ∃ (inst : Instruction) (s s' t t' : Session), s.At .default inst 0 ∧
      s'.At { Config.default with movemInlineLimit := 0 } inst 0 ∧
      inst.body .default ≠ inst.body { Config.default with movemInlineLimit := 0 } ∧
      ReflTransGen Session.Advances s t ∧ ReflTransGen Session.Advances s' t' ∧
      t'.asked.face = t.asked.face := by
  let inst := Instruction.decode .m68000 0 [0x4CD8, 3]
  have hrun (limit : UInt32) (hreaches : (Cpu.restoring limit).Reaches 20 inst 2 0 fun s =>
      s.cpu.store.code.ops.size < 2 ^ 31 ∧ s.asked.registers = (Cpu.restoring limit).registers ∧
      s.asked.memory = .program 0xFFFFFF 3 [0x4CD8, 3] ∧ s.asked.cycle = 0 ∧ s.asked.pc = 0) :
      ∃ s : Session, s.At { Config.default with movemInlineLimit := limit } inst 0 ∧
        s.asked.face = (Cpu.restoring limit).face := by
    have hhistory : Moment.History (fun _ => True) (.idle (.restoring limit)) _ _ := .start
    obtain ⟨-, s, past, -, hhistory, hmade, hsite, hfits, hregisters, hmemory, hcycle, hpc⟩ :=
      hreaches.made hhistory (List.forall_mem_singleton.mpr rfl)
    refine ⟨s, ⟨_, _, _, past, 20, Cpu.isNew_program (by decide) rfl, hhistory, hmade, hsite,
      Nat.zero_le _, hfits⟩, ?_⟩
    rw [Cpu.face, Cpu.guest, hregisters, hmemory, hcycle, hpc]
    rfl
  obtain ⟨s, hat, hface⟩ := hrun 4 (by decide +kernel)
  obtain ⟨s', hat', hface'⟩ := hrun 0 (by decide +kernel)
  obtain ⟨t, t', hpath, hpath', hsame, -⟩ :=
    list_code_unseen rfl hat hat' (hface'.trans hface.symm)
  exact ⟨inst, s, s', t, t', hat, hat', by decide +kernel, hpath, hpath', hsame⟩

end Dynarec68k
