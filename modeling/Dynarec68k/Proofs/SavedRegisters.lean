import Dynarec68k.Proofs.MoveMultiple

namespace Dynarec68k

open Host Codegen Relation RegisterFile
open Cpu (below)

variable {config : Config} {g : Guest} {inst : Instruction} {regs : List (Fin 16)} {n : Fin 8}
  {sp : UInt32}

namespace RegisterFile

variable (file : RegisterFile) (values : Nat → UInt32) (regs : List (Fin 16))

/-- With other values in some registers. -/
def setAll : RegisterFile :=
  regs.foldl (fun file (reg : Fin 16) => file.setGeneral reg (values reg)) file

/-- Their longs, word by word. -/
def words : List UInt16 :=
  regs.flatMap fun reg : Fin 16 =>
    [(file.general reg >>> 16).toUInt16, (file.general reg).toUInt16]

theorem length_words : (file.words regs).length = 2 * regs.length := by
  induction regs with
  | nil => rfl
  | cons reg rest ih => exact congrArg (· + 2) ih

theorem byteAt_setAll (k : Nat) :
    (file.setAll values regs).byteAt k =
      if k / 4 ∈ regs.map Fin.val then byteOf (values (k / 4)) (k % 4) else file.byteAt k := by
  induction regs generalizing file with
  | nil => rfl
  | cons reg rest ih =>
    rw [setAll, List.foldl_cons]
    refine (ih _).trans ?_
    rw [byteAt_setGeneral _ _ reg.isLt]
    by_cases hreg : k / 4 = reg.val
    · rw [if_pos hreg, hreg, ite_self]
      exact (if_pos List.mem_cons_self).symm
    · rw [if_neg hreg]
      exact if_congr (by simp [hreg]) rfl rfl

theorem a_setAll (hn : Fin.natAdd 8 n ∉ regs) : (file.setAll values regs).a n = file.a n := by
  rw [← general_addr, ← general_addr]
  refine eq_of_byteOf fun i hi => ?_
  rw [byteOf_general _ (Fin.isLt _) hi, byteOf_general _ (Fin.isLt _) hi, byteAt_setAll]
  refine if_neg ?_
  intro hmem
  obtain ⟨reg, hreg, heq⟩ := List.mem_map.mp hmem
  exact hn (Fin.ext (a := Fin.natAdd 8 n) (b := reg) (by omega) ▸ hreg)

theorem setA_restored (x : UInt32) :
    (((file.setA n x).setAll values regs).setAll file.general regs).setA n (file.a n) = file := by
  refine ext_byteAt fun k hk => ?_
  have hbyte (h : k / 4 < 16) : byteOf (file.general (k / 4)) (k % 4) = file.byteAt k := by
    rw [byteOf_general _ h (Nat.mod_lt k (by decide)), Nat.div_add_mod]
  rw [← setGeneral_addr, ← setGeneral_addr, ← general_addr, byteAt_setGeneral _ _ (Fin.isLt _),
    byteAt_setAll, byteAt_setAll, byteAt_setGeneral _ _ (Fin.isLt _)]
  by_cases hbase : k / 4 = Fin.natAdd 8 n
  · rw [if_pos hbase, ← hbase, hbyte (hbase ▸ Fin.isLt _)]
  · rw [if_neg hbase, if_neg hbase]
    split
    · rename_i hmem
      obtain ⟨reg, -, hreg⟩ := List.mem_map.mp hmem
      exact hbyte (hreg ▸ reg.isLt)
    · rfl

end RegisterFile

/-- MOVEM.L with a list of registers and -(An). -/
structure Instruction.Saves (inst : Instruction) (regs : List (Fin 16)) (n : Fin 8) : Prop where
  op : inst.op = .movem
  size : inst.size = .long
  src : ∃ mask : UInt16, inst.src = .regList mask ∧
    regs = (List.finRange 16).filter fun reg => mask.toNat.testBit (15 - reg.val)
  dst : inst.dst = .preDec n

/-- MOVEM.L with (An)+ and a list of registers. -/
structure Instruction.Restores (inst : Instruction) (regs : List (Fin 16)) (n : Fin 8) : Prop where
  op : inst.op = .movem
  size : inst.size = .long
  src : inst.src = .postInc n
  dst : ∃ mask : UInt16, inst.dst = .regList mask ∧
    regs = (List.finRange 16).filter fun reg => mask.toNat.testBit reg.val

theorem listed_reverse (mask : UInt16) : listed true (normalizeRegList mask true) =
    ((List.finRange 16).filter fun reg => mask.toNat.testBit (15 - reg.val)).reverse := by
  rw [← List.filter_reverse]
  exact List.filter_congr fun reg _ => testBit_reverse mask reg.isLt

namespace Codegen.ListMove

theorem all_saves (config : Config) (w : Walk) (regs : List (Fin 16)) (heven : w.address &&& 1 = 0)
    (hram : w.guest.memory.IsRam (below w.address (2 * regs.length)) (2 * (2 * regs.length))) :
    ∃ g : Guest, all ⟨.long, true, true⟩ config w regs =
        .ok ⟨g, below w.address (2 * regs.length)⟩ ∧ g.registers = w.guest.registers ∧
      w.guest.memory.Stored (below w.address (2 * regs.length))
        (w.guest.registers.words regs.reverse) g.memory := by
  induction regs generalizing w with
  | nil =>
    have hsame : below w.address 0 = w.address := UInt32.sub_zero _
    rw [List.length_nil, hsame]
    exact ⟨w.guest, rfl, rfl, .refl _, rfl, fun _ _ => rfl⟩
  | cons reg rest ih =>
    rw [List.length_cons, Nat.mul_add] at hram ⊢
    obtain ⟨hrest, hfirst⟩ := Cpu.isRam_below hram
    have hback := Cpu.below_even heven 2
    have hstored := hfirst.write32LowFirst hback (w.guest.registers.general reg)
    let first : Guest := w.guest.accessed config .long
      (w.guest.memory.store .long true (below w.address 2) (w.guest.registers.general reg))
    have hone : one ⟨.long, true, true⟩ config w reg = .ok ⟨first, below w.address 2⟩ := by
      change (w.guest.store config .long true (below w.address 2) _ >>= _) = _
      rw [Guest.store_even _ _ hback]
      rfl
    rw [← Cpu.below_below] at hrest
    obtain ⟨g, hall, hregisters, hmore⟩ := ih ⟨first, below w.address 2⟩ hback
      (hstored.layout.isRam hrest)
    rw [Cpu.below_below] at hall hmore
    have hlength : (w.guest.registers.words rest.reverse).length = 2 * rest.length := by
      rw [length_words, List.length_reverse]
    refine ⟨g, ?_, hregisters, ?_⟩
    · rw [all, List.foldlM_cons, hone]
      exact hall
    · rw [List.reverse_cons, words, List.flatMap_append]
      refine MemoryMap.IsRam.append (w.guest.registers.words rest.reverse) [_, _] ?_
        (Cpu.below_even heven _) (.inr ⟨?_, hmore⟩)
      · rwa [hlength, ← Nat.mul_add]
      · rw [hlength, Cpu.below_add]
        exact hstored

theorem all_loads (config : Config) (w : Walk) (file : RegisterFile) (regs : List (Fin 16))
    (heven : sp &&& 1 = 0) (hbelow : w.address = below sp (2 * regs.length))
    (hram : w.guest.memory.IsRam w.address (2 * (2 * regs.length)))
    (hwords : w.guest.memory.words w.address (2 * regs.length) = file.words regs) :
    ∃ g : Guest, all ⟨.long, false, false⟩ config w regs = .ok ⟨g, sp⟩ ∧
      g.registers = w.guest.registers.setAll file.general regs ∧ g.memory = w.guest.memory := by
  induction regs generalizing w with
  | nil =>
    obtain ⟨g, x⟩ := w
    refine ⟨g, ?_, rfl, rfl⟩
    rw [show x = sp from hbelow.trans (UInt32.sub_zero _)]
    rfl
  | cons reg rest ih =>
    obtain ⟨g, x⟩ := w
    rw [List.length_cons, Nat.add_comm, Nat.mul_add] at hbelow hram hwords
    subst hbelow
    have hlower := Cpu.below_even heven (2 + 2 * rest.length)
    obtain ⟨hfirst, hrest⟩ := Cpu.isRam_below hram
    rw [MemoryMap.words_add, Cpu.below_add] at hwords
    obtain ⟨hlong, hmore⟩ := List.append_inj hwords rfl
    have hread := (hfirst.read32 hlower hlong).trans
      (congrArg (·, g.memory) (MemoryMap.join_words _))
    let first : Guest := { g.accessed config .long g.memory with
      registers := g.registers.setGeneral reg (file.general reg) }
    have hone : one ⟨.long, false, false⟩ config ⟨g, below sp (2 + 2 * rest.length)⟩ reg =
        .ok ⟨first, below sp (2 * rest.length)⟩ := by
      change (g.load config .long (below sp (2 + 2 * rest.length)) >>= _) = _
      rw [Guest.load_even _ _ hlower, MemoryMap.load, hread]
      exact congrArg (fun x => Except.ok (Walk.mk first x)) (Cpu.below_add sp _ 2)
    rw [all, List.foldlM_cons]
    exact hone ▸ ih ⟨first, below sp (2 * rest.length)⟩ rfl hrest hmore

end Codegen.ListMove

namespace Instruction

theorem Saves.computes (h : inst.Saves regs n) (config : Config) (heven : g.registers.a n &&& 1 = 0)
    (hram : g.memory.IsRam (below (g.registers.a n) (2 * regs.length)) (2 * (2 * regs.length))) :
    ∃ g', inst.moveMultiple config g = .ok g' ∧
      g'.registers = g.registers.setA n (below (g.registers.a n) (2 * regs.length)) ∧
      g.memory.Stored (below (g.registers.a n) (2 * regs.length)) (g.registers.words regs)
        g'.memory := by
  obtain ⟨mask, hsrc, hregs⟩ := h.src
  have hsaves := ListMove.all_saves config
    ⟨g.spend config (8 + controlClocks (.preDec n)), g.registers.a n⟩ regs.reverse heven
  rw [List.length_reverse, List.reverse_reverse] at hsaves
  obtain ⟨g', hall, hregisters, hstored⟩ := hsaves hram
  refine ⟨{ g' with registers := g'.registers.setA n _ }, ?_,
    congrArg (setA · n _) hregisters, hstored⟩
  rw [hregs, ← listed_reverse, ← hregs] at hall
  rw [moveMultiple, hsrc, h.dst]
  change inst.moveList mask (.preDec n) true config g = _
  rw [moveList, h.size]
  change ((ListMove.all ⟨.long, true, true⟩ config ⟨g.spend config _, g.registers.a n⟩
    (listed true (normalizeRegList mask true)) >>= _) >>= _) = _
  rw [hall]
  rfl

theorem Restores.computes (h : inst.Restores regs n) (config : Config) (file : RegisterFile)
    (heven : sp &&& 1 = 0) (hbelow : g.registers.a n = below sp (2 * regs.length))
    (hram : g.memory.IsRam (g.registers.a n) (2 * (2 * regs.length)))
    (hwords : g.memory.words (g.registers.a n) (2 * regs.length) = file.words regs) :
    ∃ g', inst.moveMultiple config g = .ok g' ∧
      g'.registers = (g.registers.setAll file.general regs).setA n sp ∧
      g'.memory = (g.memory.read16 sp).2 := by
  obtain ⟨mask, hdst, hregs⟩ := h.dst
  obtain ⟨g', hall, hregisters, hmemory⟩ := ListMove.all_loads config
    ⟨g.spend config (8 + controlClocks (.postInc n)), g.registers.a n⟩ file regs heven hbelow hram
      hwords
  refine ⟨{ g'.accessed config .word (g'.memory.read16 sp).2 with
    registers := g'.registers.setA n sp }, ?_, congrArg (setA · n sp) hregisters,
    congrArg (fun map : MemoryMap => (map.read16 sp).2) hmemory⟩
  rw [moveMultiple, h.src, hdst]
  change inst.moveList mask (.postInc n) false config g = _
  rw [moveList, h.size]
  change ((ListMove.all ⟨.long, false, false⟩ config ⟨g.spend config _, g.registers.a n⟩
    (listed false mask) >>= _) >>= _) = _
  rw [show listed false mask = regs from hregs.symm, hall]
  change ((g'.load config .word sp >>= _) >>= _) = _
  rw [Guest.load_even _ _ heven]
  rfl

end Instruction

/-- A MOVEM that makes no odd access comes to its end with what it computes. -/
theorem Session.At.moves {s : Session} (h : s.At config inst 0) (hop : inst.op = .movem)
    (hok : inst.moveMultiple config s.asked.guest = .ok g) :
    ∃ t, ReflTransGen Advances s t ∧ t.site = s.site + (inst.body config).length.toUInt32 ∧
      t.asked.guest = g := by
  obtain ⟨t, hpath, -, ⟨hsite, hresult⟩ | ⟨e, hresult, -⟩⟩ :=
    h.computes (moveMultiple_follows (i := 0) hop h.shaped)
  · exact ⟨t, hpath, hsite, Except.ok.inj (hresult.symm.trans hok)⟩
  · cases hresult.symm.trans hok

/-- MOVEM saves registers and gets them back. Let a run be at the beginning of a MOVEM.L of some
registers to -(An), An even and not among them, with as many longs of plain memory below it. The run
comes to its end. Then the registers are stored in ascending order from the new An on, and nothing
else has changed. In whatever processor a run later comes to a MOVEM.L from (An)+ to these
registers, with other values in them but all else as the first left it, it ends with every register
as it was before the first. Of memory, it only reads a word too much. -/
theorem registers_saved_and_restored {save load : Instruction} (hsave : save.Saves regs n)
    (hload : load.Restores regs n) (hn : Fin.natAdd 8 n ∉ regs) {s : Session}
    (hat : s.At config save 0) (heven : s.asked.registers.a n &&& 1 = 0)
    (hram : s.asked.memory.IsRam (below (s.asked.registers.a n) (2 * regs.length))
      (2 * (2 * regs.length))) :
    ∃ t, ReflTransGen Session.Advances s t ∧
      t.site = s.site + (save.body config).length.toUInt32 ∧
      t.asked.registers = s.asked.registers.setA n
        (below (s.asked.registers.a n) (2 * regs.length)) ∧
      s.asked.memory.Stored (below (s.asked.registers.a n) (2 * regs.length))
        (s.asked.registers.words regs) t.asked.memory ∧
      ∀ (config' : Config) (s' : Session) (values : Nat → UInt32), s'.At config' load 0 →
        s'.asked.registers = t.asked.registers.setAll values regs →
        MemoryMap.SameBytes t.asked.memory s'.asked.memory →
        ∃ t', ReflTransGen Session.Advances s' t' ∧
          t'.site = s'.site + (load.body config').length.toUInt32 ∧
          t'.asked.registers = s.asked.registers ∧
          t'.asked.memory = (s'.asked.memory.read16 (s.asked.registers.a n)).2 := by
  obtain ⟨g, hok, hregisters, hstored⟩ := hsave.computes config (g := s.asked.guest) heven hram
  obtain ⟨t, hpath, hsite, rfl⟩ := hat.moves hsave.op hok
  change t.asked.registers = s.asked.registers.setA n _ at hregisters
  refine ⟨t, hpath, hsite, hregisters, hstored, fun config' s' values hat' hchanged hsame => ?_⟩
  rw [hregisters] at hchanged
  have hpointer : s'.asked.registers.a n =
      below (s.asked.registers.a n) (2 * regs.length) := by
    rw [hchanged, a_setAll _ _ _ hn, a_setA, if_pos rfl]
    rfl
  have hwords := hstored.found
  rw [length_words] at hwords
  have hkept := MemoryMap.words_congr hsame.layout (Cpu.below_even heven _)
    (hstored.layout.isRam hram).plain fun cell _ => hsame.bytes cell
  obtain ⟨g, hok, hrestored, hmemory⟩ := hload.computes config' (g := s'.asked.guest)
    s.asked.registers heven hpointer
    (hpointer ▸ (hstored.layout.trans hsame.layout).isRam hram)
    (hpointer ▸ hkept.trans hwords)
  obtain ⟨t', hpath', hsite', rfl⟩ := hat'.moves hload.op hok
  refine ⟨t', hpath', hsite', hrestored.trans ?_, hmemory⟩
  change (s'.asked.registers.setAll _ _).setA _ _ = _
  rw [hchanged]
  exact setA_restored ..

/-- MOVEM.L D0/D1/A1,-(A0), EXG D0,D1, EXG D0,A1, MOVEM.L (A0)+,D0/D1/A1 and a branch to itself. -/
def Cpu.savingCode : List UInt16 :=
  [0x48E0, 0xC040, 0xC141, 0xC189, 0x4CD8, 0x0203, 0x60FE]

/-- A processor in front of that. -/
def Cpu.saving : Cpu :=
  ((((fresh .default (.program 0xFFFFFF 0xFFFFFFFF savingCode)).setD 0 1).setD 1 2).setA 1 3).setA 0 64

/-- Its memory after the first instruction. -/
def MemoryMap.saved : MemoryMap :=
  .program 0xFFFFFF 0xFFFFFFFF
    (Cpu.savingCode ++ List.replicate 19 0x4E75 ++ [0, 1, 0, 2, 0, 3])

theorem registers_saved_and_restored_exchanged :
    ∃ s s' t' : Session, [0, 1, 9].map s.asked.registers.general = [1, 2, 3] ∧
      [0, 1, 9].map s'.asked.registers.general = [3, 1, 2] ∧
      ReflTransGen Session.Advances s' t' ∧ t'.asked.registers = s.asked.registers := by
  let save := Instruction.decode .m68000 0 [0x48E0, 0xC040]
  let load := Instruction.decode .m68000 8 [0x4CD8, 0x0203]
  let values (reg : Nat) : UInt32 := if reg = 0 then 3 else if reg = 1 then 1 else 2
  have hsaves : Cpu.saving.Reaches 20 save 2 0 fun s => s.cpu.store.code.ops.size < 2 ^ 31 ∧
      s.asked.registers = Cpu.saving.registers ∧
      s.asked.memory = .program 0xFFFFFF 0xFFFFFFFF Cpu.savingCode ∧
      (Step.next s).Runs (fun t => t.site = 36 → t.asked.memory = .saved) (fun _ _ => True) 80 := by
    unfold MemoryMap.saved
    decide +kernel
  have hloads : Cpu.saving.Reaches 54 load 36 0 fun s => s.cpu.store.code.ops.size < 2 ^ 31 ∧
      s.asked.registers = (Cpu.saving.registers.setA 0 52).setAll values [0, 1, 9] ∧
      s.asked.memory = .saved := by
    unfold MemoryMap.saved
    decide +kernel
  obtain ⟨past, hhistory, hnone⟩ : ∃ past, Moment.History (fun _ => True) _ (.idle Cpu.saving) past ∧
      ∀ m ∈ past, m.cpu.store.entries.origins = [] := by
    refine ⟨_, .next (.next (.next (.next .start (.operate _ (.setD 0 1) True.intro))
      (.operate _ (.setD 1 2) True.intro)) (.operate _ (.setA 1 3) True.intro))
      (.operate _ (.setA 0 64) True.intro), ?_⟩
    simp only [List.forall_mem_cons]
    exact ⟨rfl, rfl, rfl, rfl, rfl, List.forall_mem_nil _⟩
  have hnew : Cpu.IsNew _ .default (.program 0xFFFFFF 0xFFFFFFFF Cpu.savingCode) :=
    Cpu.isNew_program (by decide) rfl
  obtain ⟨-, s, past₁, -, hhistory₁, hmade, hsite, hfits, hregisters, hmemory, hruns⟩ :=
    hsaves.made hhistory hnone
  obtain ⟨-, s', past₂, -, hhistory₂, hmade', hsite', hfits', hregisters', hmemory'⟩ :=
    hloads.made hhistory hnone
  have hsave : save.Saves [0, 1, 9] 0 := ⟨rfl, rfl, ⟨0xC040, rfl, by decide⟩, rfl⟩
  have hload : load.Restores [0, 1, 9] 0 := ⟨rfl, rfl, rfl, ⟨0x0203, rfl, by decide⟩⟩
  obtain ⟨t, hpath, hlast, hchanged, -, hrestores⟩ := registers_saved_and_restored hsave hload
    (by decide) ⟨_, _, _, past₁, 20, hnew, hhistory₁, hmade, hsite, Nat.zero_le _, hfits⟩
    (by rw [hregisters]; decide +kernel) (by rw [hregisters, hmemory]; decide +kernel)
  have hkept := hruns.visited hpath (by rw [hlast, hsite]; decide +kernel)
  obtain ⟨t', hpath', -, hback, -⟩ := hrestores .default s' values
    ⟨_, _, _, past₂, 54, hnew, hhistory₂, hmade', hsite', Nat.zero_le _, hfits'⟩
    (by rw [hregisters', hchanged, hregisters]; decide +kernel)
    (by rw [hkept, hmemory']; exact .refl _)
  exact ⟨s, s', t', by rw [hregisters]; decide +kernel, by rw [hregisters']; decide +kernel, hpath',
    hback⟩

end Dynarec68k
