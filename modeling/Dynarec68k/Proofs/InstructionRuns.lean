import Dynarec68k.Proofs.ListTransfers

/-!
What the code of instructions does, whatever it finds in registers and memory. `Outset` is how the
code was entered. Every instruction the decoder can give comes to the end of its code or leaves it,
in no more than a fixed number of clocks. No access to a word or a long can fail once a data register
or memory was changed: `Built.careful`.
-/

namespace Dynarec68k

open Host Codegen Role Machine

variable {o : Host.Op} {m m' : Machine} {memory memory' : MemoryMap} {size : Size} {b : Outset}

theorem Scratch.place_ne {s t : Scratch} (h : s ≠ t) : Place.reg s.reg ≠ .reg t.reg := by
  intro heq
  exact h (Scratch.reg_injective (Place.reg.inj heq))

theorem Progress.Spares.place_ne {q : Progress} {d : Spot} (h : q.Spares d)
    (a : RegisterAssignment) : d.place a ≠ .reg cycles := by
  cases d with
  | guest n => exact Built.place_guest_ne a n .cycles
  | scratch s => exact Scratch.place_ne (t := .cycles) h
  | field offset => exact Place.noConfusion
  | const value => exact Place.noConfusion

namespace Host.Machine
variable {r : Reg} {value : UInt32}

theorem reg_setReg_long (hr : r.number.toNat < 16) (flags : Flags) (value : UInt32) :
    ((m.setFlags flags).setReg r .long value).state.reg r = value := by
  rw [setReg, Alike.merge_long]
  exact (State.reg_setReg _ hr _ _).trans (if_pos rfl)

theorem perform_and (hr : r.number.toNat < 16)
    (h : m.perform (.alu .and (.imm value) (.reg r) .long) = .ok m') :
    m'.state.reg r = m.state.reg r &&& value := by
  rw [← Except.ok.inj h, reg_setReg_long hr]
  simp only [and_mask_long]

theorem subWith_one (x : UInt32) :
    (subWith .long x 1 false).1 = x - 1 ∧
      (subWith .long x 1 false).2.zero = decide (x - 1 = 0) := by
  have hvalue : (subWith .long x 1 false).1 = x - 1 := by
    apply UInt32.toNat_inj.mp
    have hx := x.toNat_lt
    rw [subWith, show Size.long.modulus = 2 ^ 32 from rfl, UInt32.toNat_sub]
    simp only [UInt32.toNat_ofNat', UInt32.toNat_one, Bool.toNat_false]
    omega
  refine ⟨hvalue, ?_⟩
  have hzero : (subWith .long x 1 false).2.zero =
      ((subWith .long x 1 false).1 &&& Size.long.mask == 0) := rfl
  rw [hzero, hvalue, and_mask_long]
  rfl

theorem perform_count (hr : r.number.toNat < 16)
    (h : m.perform (.alu .sub (.imm 1) (.reg r) .long) = .ok m') :
    m'.state.reg r = m.state.reg r - 1 ∧
      m'.state.flags.zero = decide (m.state.reg r - 1 = 0) := by
  have hm := Except.ok.inj h
  have hread : m.state.reg r &&& Size.long.mask = m.state.reg r := and_mask_long _
  rw [hread] at hm
  rw [← hm]
  exact ⟨(reg_setReg_long hr _ _).trans (subWith_one _).1, (subWith_one _).2⟩

theorem perform_mov (hr : r.number.toNat < 16) {r' : Reg}
    (h : m.perform (.mov (.reg r') (.reg r) .long) = .ok m') :
    m'.state.reg r = m.state.reg r' := by
  rw [← Except.ok.inj h]
  exact (reg_setReg_long hr m.state.flags _).trans (and_mask_long _)

theorem perform_load (hr : r.number.toNat < 16)
    (h : m.perform (.mov (.imm value) (.reg r) .long) = .ok m') : m'.state.reg r = value := by
  rw [← Except.ok.inj h]
  exact (reg_setReg_long hr m.state.flags _).trans (and_mask_long _)

theorem perform_double (hr : r.number.toNat < 16)
    (h : m.perform (.shift .shl (.imm 1) (.reg r) .long) = .ok m') :
    (m'.state.reg r).toNat ≤ 2 * (m.state.reg r).toNat := by
  have hm := Except.ok.inj h
  rw [and_mask_long] at hm
  rw [← hm]
  refine Nat.le_trans (Nat.le_of_eq (congrArg UInt32.toNat (reg_setReg_long hr _ _))) ?_
  change ((m.state.reg r).toNat <<< 1 % 2 ^ 32).toUInt32.toNat ≤ _
  rw [UInt32.toNat_ofNat', Nat.shiftLeft_eq]
  omega

end Host.Machine

theorem Host.Machine.Ticks.spill (h : m.Ticks m') (a : RegisterAssignment) :
    a.spill m' = a.spill m := by
  refine RegisterFile.ext_byteAt fun k _ => ?_
  rw [a.byteAt_spill, a.byteAt_spill, h.file]
  cases hlookup : a.mapped.lookup (k / 4) with
  | none => rfl
  | some host =>
    have hhost := (RegisterAssignment.lookup_mapped hlookup).2.1
    have hne : host ≠ cycles := by
      rintro rfl
      exact absurd hhost (by decide)
    simp only
    rw [h.reg host hne]

theorem RegisterFile.d_congr {file file' : RegisterFile}
    (h : ∀ k < 32, file'.byteAt k = file.byteAt k) (n : Nat) : file'.d n = file.d n := by
  refine long_congr (d_fits n) fun i hi => h _ ?_
  simp only [dataOffset]
  omega

/-- What is stored there leaves D0 to D7 alone. -/
def Host.Place.Apart (a : RegisterAssignment) (place : Place) : Prop :=
  ∀ (m m' : Machine) (size : Size) (value : UInt32), m.Ready →
    m.write place size value = .ok m' → ∀ n, (a.spill m').d n = (a.spill m).d n

namespace Host.Place.Apart

variable (a : RegisterAssignment)

theorem scratch (s : Scratch) : (Place.reg s.reg).Apart a := by
  intro m m' size value hready hwrite n
  rw [write] at hwrite
  cases hwrite
  exact congrArg (RegisterFile.d · n) (spill_setReg_scratch a m s _)

theorem guest {reg : Fin 16} (h : 8 ≤ reg.val) : (a.place reg.val).Apart a := by
  intro m m' size value hready hwrite n
  have hbound := (generalOffset_bound reg size).1
  obtain ⟨_, hwritten, -, hspill⟩ := write_guest a hready reg size value
  cases hwritten.symm.trans hwrite
  rw [hspill]
  refine RegisterFile.d_congr (fun k hk => ?_) n
  rw [RegisterFile.byteAt_put _ _ hbound, if_neg]
  simp only [RegisterFile.generalOffset]
  omega

theorem field {offset : Nat} (hlow : 64 ≤ offset) (hhigh : offset < registerFileSize) :
    (Place.slot context (Int32.ofNat offset)).Apart a := by
  intro m m' size value hready hwrite n
  obtain ⟨offset', hoffset, hbound, rfl⟩ := write_slot_ok hwrite
  rw [offset?_context hready hhigh] at hoffset
  cases hoffset
  have hfree (i : Nat) : a.mapped.lookup ((offset + i) / 4) = none :=
    a.lookup_mapped_field (by omega)
  rw [spill_put a m hbound fun i _ => hfree i]
  refine RegisterFile.d_congr (fun k hk => ?_) n
  rw [RegisterFile.byteAt_put _ _ hbound, if_neg]
  omega

theorem spot {d : Spot} (h : Progress.intact.Spares d) : (d.place a).Apart a := by
  cases d with
  | guest reg => exact guest a (h rfl)
  | scratch s => exact scratch a s
  | field offset => exact field a h.1 h.2
  | const value =>
    intro m m' size value' hready hwrite
    cases hwrite

end Host.Place.Apart

theorem Host.Machine.perform_apart {a : RegisterAssignment} (hready : m.Ready)
    (hapart : ∀ place size, o.writes = some (place, size) → place.Apart a)
    (h : m.perform o = .ok m') (n : Nat) : (a.spill m').d n = (a.spill m).d n := by
  obtain ⟨flags, rfl | ⟨place, size, value, hwrites, hwrite⟩⟩ := perform_cases h
  · rfl
  · exact hapart place size hwrites (m.setFlags flags) m' size value ⟨hready.context, hready.stack⟩
      hwrite n

/-- The code of an instruction is entered: with what registers, and with what memory. -/
structure Outset where
  config : Config
  inst : Instruction
  registers : RegisterFile
  memory : MemoryMap

namespace Outset

/-- Data registers and plain memory are as they were. -/
def Intact (b : Outset) (m : Machine) (memory : MemoryMap) : Prop :=
  (∀ n, (b.config.registerAssignment.spill m).d n = b.registers.d n) ∧
    MemoryMap.SameBytes b.memory memory

/-- Where an access fails nothing has happened yet, and where a fetch fails it is known what was
to be fetched, and by whom. -/
def Finds (b : Outset) (service : Service) (m : Machine) (memory : MemoryMap) : Prop :=
  (service.isWide = true → service.address m &&& 1 ≠ 0 → b.Intact m memory) ∧
    (service = .fetchError → m.state.reg scratch2 = b.inst.address ∧
      m.state.reg scratch1 &&& 1 ≠ 0 ∧
      b.inst.knownTarget? = some (m.state.reg scratch1))

abbrev clock (b : Outset) : Nat :=
  b.config.clockDivider.toNat

/-- So many cycles an instruction takes at most. -/
def most (b : Outset) : Nat :=
  256 * b.clock

/-- Nothing is asked for too late, and nothing is left at once on a clock that goes. -/
def needs (b : Outset) : Needs where
  service service spent m memory := spent ≤ b.most ∧ b.Finds service m memory
  leave service spent m memory := spent ≤ b.most ∧
    (service.delays = true ∨ (b.config.Ticks → 0 < spent)) ∧ b.Finds service m memory
  target _ spent _ _ := spent ≤ b.most ∧ (b.config.Ticks → 0 < spent)

/-- A fragment finds what it needs from one assertion to another. -/
abbrev Allows (b : Outset) (P : Assertion) (f : Fragment) (Q : Assertion) : Prop :=
  Contract b.config b.needs P f Q

theorem Intact.perform (h : b.Intact m memory) (hready : m.Ready)
    (hapart : ∀ place size, o.writes = some (place, size) → place.Apart b.config.registerAssignment)
    (hperform : m.perform o = .ok m') : b.Intact m' memory := by
  refine ⟨fun n => ?_, h.2⟩
  rw [perform_apart hready hapart hperform, h.1]

theorem finds_narrow (b : Outset) {service : Service} (hwide : service.isWide = false)
    (hfetch : service ≠ .fetchError) (m : Machine) (memory : MemoryMap) :
    b.Finds service m memory :=
  ⟨fun h => absurd (h.symm.trans hwide) (by decide), fun h => absurd h hfetch⟩

theorem finds_intact {service : Service} (hfetch : service ≠ .fetchError)
    (h : service.isWide = true → service.address m &&& 1 ≠ 0 → b.Intact m memory) :
    b.Finds service m memory :=
  ⟨h, fun heq => absurd heq hfetch⟩

end Outset

/-- So much may have been spent, at most. -/
def Account.Holds (account : Account) (config : Config) (most spent : Nat) : Prop :=
  match account with
  | .blank => spent ≤ most
  | .paid => (config.Ticks → 0 < spent) ∧ spent ≤ most
  | .shut => False

namespace Account

variable {g h : Account} {config : Config} {most most' spent : Nat}

variable (hholds : g.Holds config most spent)
include hholds

theorem Holds.le : spent ≤ most := by
  cases g with
  | blank => exact hholds
  | paid => exact hholds.2
  | shut => exact hholds.elim

theorem Holds.add {cost cost' : Nat} (hle : cost ≤ cost') :
    g.Holds config (most + cost') (spent + cost) := by
  cases g with
  | blank => exact Nat.add_le_add hholds hle
  | paid => exact ⟨fun ht => Nat.add_pos_left (hholds.1 ht) _, Nat.add_le_add hholds.2 hle⟩
  | shut => exact hholds.elim

theorem Holds.mono (hle : most ≤ most') : g.Holds config most' spent := by
  obtain ⟨cost, rfl⟩ := Nat.exists_eq_add_of_le hle
  exact hholds.add (Nat.zero_le cost)

theorem Holds.weaken (hbelow : g.Below h) : h.Holds config most spent := by
  cases g <;> cases h <;> simp_all [Holds, Below]

end Account

namespace Progress

variable {g : Progress} {b : Outset}

def At (g : Progress) (b : Outset) (m : Machine) (memory : MemoryMap) : Prop :=
  match g with
  | .intact => b.Intact m memory
  | .loose => True
  | .shut => False

theorem At.weaken {h : Progress} (hat : g.At b m memory) (hbelow : g.Below h) :
    h.At b m memory := by
  cases g <;> cases h <;> simp_all [At, Below]

theorem At.same (hat : g.At b m memory) (h : b.Intact m memory → b.Intact m' memory') :
    g.At b m' memory' := by
  cases g with
  | intact => exact h hat
  | loose => trivial
  | shut => exact hat

theorem At.perform (hat : g.At b m memory) (hready : m.Ready)
    (hwrites : ∀ place size, o.writes = some (place, size) →
      ∃ d : Spot, place = d.place b.config.registerAssignment ∧ g.Spares d)
    (hperform : m.perform o = .ok m') : g.At b m' memory := by
  cases g with
  | intact =>
    refine Outset.Intact.perform hat hready (fun place size h => ?_) hperform
    obtain ⟨d, rfl, hd⟩ := hwrites place size h
    exact .spot _ hd
  | loose => trivial
  | shut => exact hat

end Progress

/-- What a mark says at a place of the code, where so much was spent before at most. -/
def Mark.Holds (mark : Mark) (b : Outset) (before : Nat) : Assertion := fun spent m memory =>
  mark.account.Holds b.config before spent ∧ mark.progress.At b m memory

/-- From one mark to another a fragment takes so many clocks at most, and finds what it needs. -/
def Careful (b : Outset) (s : Mark) (n : Nat) (f : Fragment) (t : Mark) : Prop :=
  ∀ before, before + n * b.clock ≤ b.most →
    b.Allows (s.Holds b before) f (t.Holds b (before + n * b.clock))

namespace Careful

variable {b : Outset} {s t r : Mark} {g : Grade} {p : Account} {q : Progress} {n n' before : Nat}
  {e f : Fragment} {clocks : Nat} {value : Place}

theorem free (h : ∀ before, b.Allows (s.Holds b before) f (t.Holds b before)) :
    Careful b s 0 f t := by
  intro before _
  rw [Nat.zero_mul]
  exact h before

theorem append (h : Careful b s n e t) (h' : Careful b t n' f r) :
    Careful b s (n + n') (e ++ f) r := by
  intro before hle
  rw [Nat.add_mul, ← Nat.add_assoc] at hle ⊢
  exact (h before (by omega)).append (h' _ hle)

theorem weaken {s' t' : Mark} (h : Careful b s n f t) (hs : s'.Below s) (ht : t.Below t')
    (hn : n ≤ n') : Careful b s' n' f t' := by
  intro before hle
  have hcost := Nat.mul_le_mul_right b.clock hn
  refine (h before (by omega)).weaken
    (fun _ _ _ hholds => ⟨hholds.1.weaken hs.account, hholds.2.weaken hs.progress⟩)
    fun _ _ _ hholds => ⟨?_, hholds.2.weaken ht.progress⟩
  exact (hholds.1.weaken ht.account).mono (by omega)

theorem ended (h : Careful b s n f .stop) : Careful b s n f t :=
  h.weaken (.refl s) t.stop_below (Nat.le_refl n)

theorem skipIf {t : Test} (h : Careful b s n f s) : Careful b s n (skipIf t f) s :=
  fun before hle => .skipIf ((h before hle).weaken (fun _ _ _ h => h.1) fun _ _ _ h => h)
    fun _ _ _ hholds _ => ⟨hholds.1.mono (by omega), hholds.2⟩

theorem choose {t : Test} (h : Careful b s n e r) (h' : Careful b s n f r) :
    Careful b s n (Fragment.choice t e f) r := fun before hle =>
  .choose ((h before hle).weaken (fun _ _ _ h => h.1) fun _ _ _ h => h)
    ((h' before hle).weaken (fun _ _ _ h => h.1) fun _ _ _ h => h)

theorem op (hdata : o.isData = true)
    (hwrites : ∀ place size, o.writes = some (place, size) →
      ∃ d : Spot, place = d.place b.config.registerAssignment ∧ s.progress.Spares d) :
    Careful b s 0 [.op o] s := by
  refine free fun before => .op hdata (fun place size h => ?_)
    fun _ _ _ _ hready _ hholds hperform =>
      ⟨hholds.1, hholds.2.perform hready hwrites hperform⟩
  obtain ⟨d, rfl, hd⟩ := hwrites place size h
  exact hd.place_ne _

theorem scratch_with (r : Scratch) (hr : r ≠ .cycles) (hdata : o.isData = true)
    (hwrites : o.writes = some (.reg r.reg, size)) {F G : Machine → Prop}
    (h : ∀ m m', F m → m.perform o = .ok m' → G m') :
    b.Allows (fun spent m memory => s.Holds b before spent m memory ∧ F m) [.op o]
      fun spent m memory => s.Holds b before spent m memory ∧ G m := by
  refine .op hdata (Op.spares_of_writes hwrites (Scratch.place_ne (t := .cycles) hr))
    fun _ m m' _ hready _ hholds hperform =>
      ⟨⟨hholds.1.1, hholds.1.2.perform hready (fun place size' hplace => ?_) hperform⟩,
        h m m' hholds.2 hperform⟩
  cases hwrites.symm.trans hplace
  exact ⟨.scratch r, rfl, hr⟩

theorem scratch (r : Scratch) (hr : r ≠ .cycles) (hdata : o.isData = true)
    (hwrites : o.writes = some (.reg r.reg, size)) : Careful b s 0 [.op o] s :=
  free fun _ => (scratch_with r hr hdata hwrites (F := fun _ => True) fun _ _ _ _ => True.intro).weaken
    (fun _ _ _ h => ⟨h, trivial⟩) fun _ _ _ h => h.1

theorem compare (hdata : o.isData = true) (hwrites : o.writes = none) : Careful b s 0 [.op o] s :=
  op hdata fun place size h => by cases hwrites.symm.trans h

theorem toNat_cycles_le (config : Config) (clocks : Nat) :
    (config.cycles clocks).toNat ≤ clocks * config.clockDivider.toNat := by
  rw [Config.cycles, UInt32.toNat_mul, UInt32.toNat_ofNat']
  calc clocks % 2 ^ 32 * config.clockDivider.toNat % 2 ^ 32
      ≤ clocks % 2 ^ 32 * config.clockDivider.toNat := Nat.mod_le _ _
    _ ≤ clocks * config.clockDivider.toNat := Nat.mul_le_mul_right _ (Nat.mod_le _ _)

theorem at_ticks (hat : q.At b m memory) (hticks : m.Ticks m') : q.At b m' memory :=
  hat.same fun hintact => ⟨fun n => by rw [hticks.spill, hintact.1], hintact.2⟩

theorem charge (clocks : Nat) : Careful b s clocks (charge b.config clocks) s :=
  fun _ _ => .charge fun _ _ _ _ hholds hticks _ =>
    ⟨hholds.1.add (toNat_cycles_le b.config clocks), at_ticks hholds.2 hticks⟩

/-- A charge that is one settles the account, on a clock that goes and does not wrap. -/
theorem pay (hclocks : 0 < clocks) (hsmall : clocks < 1024) :
    Careful b ⟨g, p, q⟩ clocks (Codegen.charge b.config clocks) ⟨g, .paid, q⟩ := by
  refine fun _ _ => .charge fun _ _ _ _ hholds hticks _ => ⟨⟨fun ht => ?_,
    (hholds.1.add (toNat_cycles_le b.config clocks)).le⟩, at_ticks hholds.2 hticks⟩
  have hpositive := Nat.mul_pos hclocks ht.positive
  rw [ht.toNat_cycles hsmall]
  omega

theorem at_answers {service : Service} (hstore : service.isStore = false) (hat : q.At b m memory)
    (hanswers : Answers b.config service clocks m memory m' memory') : q.At b m' memory' :=
  hat.same fun hintact =>
    ⟨fun n => by rw [hanswers.data, hintact.1], hintact.2.trans (hanswers.bytes hstore)⟩

theorem access {gate : Gate} (hgate : gate.isAccess = true)
    (hle : before + 8 * b.clock ≤ b.most) {S S' : Machine → MemoryMap → Prop}
    (hfinds : ∀ m memory, S m memory → b.Finds gate.service m memory)
    (h : ∀ m memory clocks m' memory', S m memory →
      Answers b.config gate.service clocks m memory m' memory' → S' m' memory') :
    b.Allows (fun spent m memory => p.Holds b.config before spent ∧ S m memory) [.call gate]
      fun spent m memory => p.Holds b.config (before + 8 * b.clock) spent ∧ S' m memory := by
  have hmost : gate.service.mostClocks ≤ 8 := by
    cases gate <;> decide
  exact .asks (.call hgate) (fun _ m memory hholds =>
      ⟨Nat.le_trans hholds.1.le (by omega), hfinds m memory hholds.2⟩)
    fun _ m memory clocks m' memory' hholds hanswers =>
      ⟨hholds.1.add (Nat.mul_le_mul_right _ (Nat.le_trans hanswers.most hmost)),
        h m memory clocks m' memory' hholds.2 hanswers⟩

theorem read (h : size = .byte ∨ q = .intact) :
    Careful b ⟨g, p, q⟩ 8 (callRead size) ⟨g, p, q⟩ := by
  have hgate : (Gate.ofRead size).isAccess = true ∧ (Gate.ofRead size).service.isStore = false ∧
      (Gate.ofRead size).service ≠ .fetchError := by
    cases size <;> decide
  refine fun before hle => access hgate.1 hle (fun m memory hat => ?_)
    fun _ _ _ _ _ hat hanswers => at_answers hgate.2.1 hat hanswers
  rcases h with rfl | rfl
  · exact b.finds_narrow rfl (by decide) m memory
  · exact Outset.finds_intact hgate.2.2 fun _ _ => hat

theorem write (lowFirst : Bool) (h : size = .byte ∨ q = .intact) :
    Careful b ⟨g, p, q⟩ 8 (callWrite size lowFirst) ⟨g, p, .loose⟩ := by
  have hgate : (Gate.ofWrite size lowFirst).isAccess = true ∧
      (Gate.ofWrite size lowFirst).service ≠ .fetchError := by
    cases size <;> cases lowFirst <;> decide
  refine fun before hle => access hgate.1 hle (fun m memory hat => ?_)
    fun _ _ _ _ _ _ _ => True.intro
  rcases h with rfl | rfl
  · exact b.finds_narrow rfl hgate.2 m memory
  · exact Outset.finds_intact hgate.2 fun _ _ => hat

theorem service {service : Service} (hs : service.comesBack = true) :
    Careful b ⟨g, p, q⟩ service.mostClocks (Codegen.service service)
      ⟨g, if 0 < service.leastClocks then .paid else p, q⟩ := by
  have hkind : service.isStore = false ∧ service.isWide = false ∧ service ≠ .fetchError := by
    cases service <;> first | decide | cases hs
  refine fun before hle => .asks (.service hs)
    (fun _ m memory hholds => ⟨Nat.le_trans hholds.1.le (by omega),
      b.finds_narrow hkind.2.1 hkind.2.2 m memory⟩)
    fun _ _ _ _ _ _ hholds hanswers => ⟨?_, at_answers hkind.1 hholds.2 hanswers⟩
  have hlater := hholds.1.add (Nat.mul_le_mul_right b.clock hanswers.most)
  dsimp only
  split
  · refine ⟨fun ht => ?_, hlater.le⟩
    have hpositive := Nat.mul_pos (Nat.lt_of_lt_of_le ‹_› hanswers.least) ht.positive
    omega
  · exact hlater

theorem leave {service : Service} (hs : service.goesAway = true)
    (hp : service.delays = true ∨ p = .paid) (hfetch : service ≠ .fetchError) :
    Careful b ⟨g, p, q⟩ 0 (Codegen.service service) .stop := by
  have hkind : service.isWide = false := by
    cases service <;> first | rfl | cases hs
  refine fun before hle => Contract.ended (.leave hs fun _ m memory hholds =>
    ⟨Nat.le_trans hholds.1.le (by omega), hp.imp_right fun hpaid => ?_,
      b.finds_narrow hkind hfetch m memory⟩)
  subst hpaid
  exact hholds.1.1

theorem raise (vector : Nat) (pc : UInt32) : Careful b s 0 (Codegen.raise vector pc) .stop :=
  ((scratch .first (by decide) rfl rfl).append (scratch .second (by decide) rfl rfl)).append
    (leave rfl (.inl rfl) (by decide))

theorem requireSupervisor : Careful b s 0 (requireSupervisor b.inst) s :=
  (compare rfl rfl).append (skipIf (raise _ _).ended)

theorem jumpTo {target : UInt32} (htarget : b.inst.knownTarget? = some target) :
    Careful b ⟨g, .paid, q⟩ 0 (jumpTo b.inst.address target) .stop := by
  intro before hle
  have htime {spent : Nat} (h : Account.paid.Holds b.config before spent) : spent ≤ b.most :=
    Nat.le_trans h.2 (by omega)
  rw [Codegen.jumpTo]
  split
  · exact Contract.ended (.goto fun _ _ _ hholds => ⟨htime hholds.1, hholds.1.1⟩)
  · rename_i hodd
    have hloads : b.Allows
        (fun spent m memory => Mark.Holds ⟨g, .paid, q⟩ b before spent m memory ∧ True)
        (load target scratch1 ++ load b.inst.address scratch2)
        (fun spent m memory => Mark.Holds ⟨g, .paid, q⟩ b before spent m memory ∧
          m.state.reg scratch2 = b.inst.address ∧ m.state.reg scratch1 = target) := by
      refine (scratch_with .first (by decide) rfl rfl
        (G := fun m => m.state.reg scratch1 = target) fun _ _ _ hperform =>
          perform_load (by decide) hperform).append
        (scratch_with .second (by decide) rfl rfl fun m m' hm hperform =>
          ⟨perform_load (by decide) hperform, ?_⟩)
      exact (perform_spares (Op.spares_of_writes rfl (by decide)) hperform).trans hm
    refine ((hloads.append (Contract.ended (.leave rfl ?_)))).weaken
      (fun _ _ _ hholds => ⟨hholds, trivial⟩) fun _ _ _ h => h
    rintro spent m memory ⟨hholds, haddress, hm⟩
    refine ⟨htime hholds.1, .inl rfl, fun hwide => ?_, fun _ => ?_⟩
    · cases hwide
    · rw [hm]
      exact ⟨haddress, hodd, htarget⟩

theorem computed : Careful b ⟨g, .paid, q⟩ 0 jumpComputed .stop := fun before hle =>
  Contract.ended (.computed fun _ m memory hholds => ⟨Nat.le_trans hholds.1.2 (by omega),
    .inr hholds.1.1, b.finds_narrow rfl (by decide) m memory⟩)

theorem aslStep_spares (hvalue : value ≠ .reg temp) (size : Size) :
    (aslStep value size).Spares temp :=
  (((Fragment.Spares.op rfl hvalue).append (.op rfl (by decide))).append
    (.op rfl (by decide))).append (.op rfl (by decide))

theorem countedLoop (htemp : value ≠ .reg temp)
    (hstep : Careful b s 0 (aslStep value size) s) :
    Careful b s 0 (repeatWhile .notEqual
      (aslStep value size ++ alu .sub (.imm 1) (.reg temp) .long)) s := by
  intro before hle spent m memory hready hholds
  have hstep := hstep before hle
  rw [Nat.zero_mul, Nat.add_zero] at hstep ⊢
  refine Contract.loop (S := fun k spent m memory => s.Holds b before spent m memory ∧
    (m.state.reg temp - 1).toNat = k) (fun k => ?_) _ spent m memory hready ⟨hholds, rfl⟩
  rintro spent m memory hready ⟨hholds, rfl⟩
  have hkeeps := hstep.keeps (s := .temp) (by decide) (by decide) (aslStep_spares htemp size)
    (m.state.reg temp)
  refine (hkeeps.append (scratch_with .temp (by decide) rfl rfl (G := fun last =>
    last.state.reg temp = m.state.reg temp - 1 ∧
      last.state.flags.zero = decide (m.state.reg temp - 1 = 0))
    fun m' last hkept hperform => ?_)).mono (fun spent last memory hlast => ?_) spent m memory
      hready ⟨hholds, rfl⟩
  · rw [← show m'.state.reg temp = m.state.reg temp from hkept]
    exact perform_count (by decide) hperform
  · obtain ⟨hholds, hcount, hzero⟩ := hlast
    refine ⟨fun hagain => ⟨_, ?_, hholds, rfl⟩, fun _ => hholds⟩
    rw [Flags.holds, hzero, Bool.not_eq_true', decide_eq_false_iff_not] at hagain
    rw [hcount]
    have hpositive : (m.state.reg temp - 1).toNat ≠ 0 := fun hnone =>
      hagain (UInt32.toNat_inj.mp hnone)
    generalize m.state.reg temp - 1 = left at hpositive ⊢
    have hleft := left.toNat_lt
    rw [UInt32.toNat_sub]
    simp only [UInt32.toNat_one]
    omega

theorem ticks (count : Nat) {small : Nat} :
    b.Allows (fun spent m memory => s.Holds b before spent m memory ∧
        (m.state.reg scratch4).toNat ≤ small)
      (List.replicate count
        (alu .add (.reg scratch4) (.reg cycles) .long)).flatten
      (s.Holds b (before + count * small)) := by
  induction count generalizing before with
  | zero =>
    rw [Nat.zero_mul]
    exact Contract.nil.mono fun _ _ _ h => h.1
  | succ count ih =>
    rw [List.replicate_succ, List.flatten_cons, Nat.succ_mul, Nat.add_comm (count * small),
      ← Nat.add_assoc]
    have htick {m m' : Machine} (hperform : m.perform
        (.alu .add (.reg scratch4) (.reg cycles) .long) = .ok m') : m.Ticks m' ∧
          m'.state.reg cycles = m.state.reg cycles + m.state.reg scratch4 := by
      have hread : m.read (.reg scratch4) .long = .ok (m.state.reg scratch4) := by
        rw [Machine.read, and_mask_long]
      obtain ⟨_, hticked, hticks⟩ := perform_tick hread
      cases hticked.symm.trans hperform
      exact hticks
    refine Contract.append (.tick rfl (fun m => (m.state.reg scratch4).toNat)
      (fun m m' hperform => ?_) fun _ m m' _ _ _ hholds hperform => ⟨⟨hholds.1.1.add hholds.2,
        at_ticks hholds.1.2 (htick hperform).1⟩, ?_⟩) ih
    · rw [(htick hperform).2, show (m.state.reg scratch4).toNat.toUInt32 = _ from
        UInt32.ofNat_toNat]
    · rw [(htick hperform).1.reg scratch4 (by decide)]
      exact hholds.2

theorem loadCount (count : Place) : Careful b s 126 (loadCount b.config count) s := by
  intro before hle
  have hmov : Careful b s 0 (mov count (.reg temp) .long) s :=
    scratch .temp (by decide) rfl rfl
  have htest : Careful b s 0 (alu .test (.reg temp) (.reg temp) .long) s :=
    compare rfl rfl
  have hfirst := hmov before (by omega)
  have hlast := htest (before + b.clock * 126) (by omega)
  rw [Nat.zero_mul, Nat.add_zero] at hfirst hlast
  rw [Nat.mul_comm]
  have hmask {m m' : Machine} (hperform : m.perform (.alu .and (.imm 63) (.reg temp) .long) =
      .ok m') : (m'.state.reg temp).toNat ≤ 63 := by
    rw [perform_and (by decide) hperform, UInt32.toNat_and]
    exact Nat.and_le_right
  have hmiddle : b.Allows (fun spent m memory => s.Holds b before spent m memory ∧ True)
      (alu .and (.imm 63) (.reg temp) .long ++
        mov (.reg temp) (.reg scratch4) .long ++
        shiftBy .shl 1 (.reg scratch4) .long)
      (fun spent m memory => s.Holds b before spent m memory ∧
        (m.state.reg scratch4).toNat ≤ 126) := by
    refine ((scratch_with .temp (by decide) rfl rfl fun _ _ _ hperform => hmask hperform).append
      (scratch_with .fourth (by decide) rfl rfl (G := fun m => (m.state.reg scratch4).toNat ≤ 63)
        fun _ _ hsmall hperform => ?_)).append
      (scratch_with .fourth (by decide) rfl rfl fun _ _ hsmall hperform => ?_)
    · rw [perform_mov (by decide) hperform]
      exact hsmall
    · have hdoubled := perform_double (by decide) hperform
      omega
  have hall := ((hfirst.append (hmiddle.weaken (fun _ _ _ h => ⟨h, trivial⟩)
    fun _ _ _ h => h)).append (ticks b.clock)).append hlast
  simp only [List.append_assoc] at hall ⊢
  exact hall

/-- Accesses to the registers of a list take their time, and only the first of them can fail. -/
def listing (b : Outset) (p : Account) (before : Nat) (hle : before + 136 * b.clock ≤ b.most) :
    Allowance b.config b.needs fun e => (∀ n, e.guest.registers.d n = b.registers.d n) ∧
      MemoryMap.SameBytes b.memory e.guest.memory where
  time k spent := ∃ n, n + k = 17 ∧ p.Holds b.config (before + n * (8 * b.clock)) spent
  later := by
    rintro k spent c ⟨n, hn, hholds⟩ hc
    refine ⟨n + 1, by omega, ?_⟩
    rw [Nat.add_one_mul, ← Nat.add_assoc]
    exact hholds.add hc
  granted := by
    rintro k spent s m memory haccess ⟨n, hn, hholds⟩ hodd
    refine ⟨hholds.le.trans ?_, Outset.finds_intact (fun hs => ?_) hodd⟩
    · have hmost := Nat.mul_le_mul_right (8 * b.clock) (show n ≤ 17 by omega)
      omega
    · subst hs
      cases haccess

theorem list {move : ListMove} (hsize : move.size ≠ .byte) (mask : UInt16) (inline : Bool) :
    Careful b ⟨g, p, .intact⟩ 136
      ((if inline then transferStraight b.config move mask else transferLoop b.config move mask) ++
        if move.toMemory then []
        else mov (.reg scratch2) (.reg scratch1) .long ++ callRead .word)
      ⟨.loose, p, .loose⟩ := by
  rintro before hle spent m memory hready ⟨hspent, hintact⟩
  have hlist := transferList_follows (A := listing b p before hle) (i := 0) move
    ⟨.seen b.config.registerAssignment m memory, m.state.reg scratch2⟩ mask inline
    fun e he => by
      beta_reduce
      rw [ListMove.guest_of_whole hsize _ he]
      exact hintact
  have hstart : p.Holds b.config (before + 0 * (8 * b.clock)) spent := hspent.mono (by omega)
  refine (hlist spent m memory hready ⟨⟨0, rfl, hstart⟩, ?_⟩).mono ?_
  · rintro a rfl
    refine ⟨rfl, fun s v _ hs => ?_⟩
    cases s <;> first | exact Option.some.inj hs | cases hs
  · rintro _ _ _ ⟨hready, _, _, ⟨n, hn, hholds⟩, -⟩
    obtain rfl : n = 17 := hn
    exact ⟨hready, hholds.mono (by omega), trivial⟩

end Careful

namespace Built

variable {b : Outset} {u : Bool} {s t : Mark} {n : Nat} {f : RegisterAssignment → Fragment}

/-- Code takes the time it is built with, and finds what it needs. Nothing that a failing access
would have to undo is done before it. -/
theorem careful (h : Built b.config b.inst u s n f t) :
    Careful b s n (f b.config.registerAssignment) t := by
  induction h with
  | nil => exact .free fun _ => .nil
  | weaken _ hs ht hn ih => exact ih.weaken hs ht hn
  | append _ _ ih ih' => exact ih.append ih'
  | op hop hstore => exact .op (hop _ b.config.registerAssignment).isData.1 (hstore _)
  | charge clocks => exact .charge clocks
  | pay hpositive hle hn =>
    exact (Careful.pay hpositive (Nat.lt_of_le_of_lt hle hn)).weaken (.refl _) (.refl _) hle
  | read h => exact .read h
  | write lowFirst h => exact .write lowFirst h
  | service hs => exact .service hs
  | leave hs _ _ hp hfetch => exact .leave hs hp hfetch
  | jumpTo htarget => exact .jumpTo htarget
  | computed => exact .computed
  | skipIf _ ih => exact .skipIf ih
  | choose _ _ ih ih' => exact .choose ih ih'
  | @trapped _ g p q _ _ o _ _ hop hstore _ _ ih ih' =>
    intro before hle
    have hshut {e : Fragment} (h : Careful b ⟨g, p, q⟩ 0 e .stop) :
        b.Allows (Mark.Holds ⟨g, p, q⟩ b before) e fun _ _ _ => False :=
      (h before hle).mono fun _ _ _ hholds => hholds.1
    rw [Nat.zero_mul]
    refine Contract.trapped (hop _ b.config.registerAssignment).isData.1
      (Op.spares_of_none (hstore _)) (fun _ _ _ _ hready _ hholds hperform => ⟨hholds.1,
        hholds.2.perform hready (fun _ _ h => ?_) hperform⟩) (hshut ih) (hshut ih')
    cases (hstore _).symm.trans h
  | privileged _ ih =>
    have hall := Careful.requireSupervisor.append ih
    rwa [Nat.zero_add] at hall
  | @counted _ _ _ _ d _ hd _ ih =>
    refine .countedLoop (fun heq => ?_) ih
    cases d with
    | guest n => exact place_guest_ne _ n .temp heq
    | scratch s => exact hd (congrArg _ (Scratch.reg_injective (t := .temp) (Place.reg.inj heq)))
    | field => cases heq
    | const => cases heq
  | count k => exact .loadCount _
  | @list _ _ _ mask inline hsize => exact .list hsize mask inline

end Built

theorem CodeUnit.Shaped.runs {part : CodeUnit} (h : part.Shaped)
    (hinst : ∀ inst, part = .instruction inst → b.inst = inst) (hready : m.Ready)
    (hintact : b.Intact m memory) :
    Runs b.config b.needs (part.body b.config) (fun spent m _ => m.Ready ∧
      part.falls = true ∧ spent ≤ b.most ∧ (b.config.Ticks → 0 < spent)) 0 0 m memory := by
  have hstart (g : Grade) : Mark.Holds ⟨g, .blank, .intact⟩ b 0 0 m memory :=
    ⟨Nat.le_refl 0, hintact⟩
  have hbound : 0 + 256 * b.clock ≤ b.most := by
    rw [Nat.zero_add]
    exact Nat.le_refl _
  cases part with
  | instruction inst =>
    obtain rfl := hinst inst rfl
    cases hterminal : b.inst.isTerminal with
    | false =>
      have hbuilt : Built b.config b.inst false _ 256 _ _ := .body h.1 h.2
      refine ((hbuilt.careful 0 hbound) 0 m memory hready (hstart _)).mono ?_
      rintro _ _ _ ⟨hready, hholds, -⟩
      refine ⟨hready, ?_, Nat.le_trans hholds.2 hbound, hholds.1⟩
      simp only [falls, hterminal, Bool.not_false]
    | true =>
      have hbuilt : Built b.config b.inst false _ 256 _ _ := .body_terminal h.1 hterminal
      refine ((hbuilt.careful 0 hbound) 0 m memory hready (hstart _)).mono ?_
      rintro _ _ _ ⟨-, hholds, -⟩
      exact hholds.elim
  | missing address =>
    have hcode : Careful b ⟨.loose, .blank, .intact⟩ 0
        (Codegen.load address scratch1 ++ Codegen.service .outOfBounds) .stop :=
      (Careful.scratch .first (by decide) rfl rfl).append (.leave rfl (.inl rfl) (by decide))
    refine ((hcode 0 (by omega)) 0 m memory hready (hstart _)).mono ?_
    rintro _ _ _ ⟨-, hholds, -⟩
    exact hholds.elim

end Dynarec68k
