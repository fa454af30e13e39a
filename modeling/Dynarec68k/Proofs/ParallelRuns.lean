import Dynarec68k.Proofs.GeneratedRuns

namespace Dynarec68k

open Host Relation Codegen Role RegisterFile Machine

variable {descending u : Bool} {a b : RegisterAssignment} {file : RegisterFile}
  {place rest : UInt32}

/-- Hosts that agree, each with a register file that is up to date. -/
structure Settled (a b : RegisterAssignment) (file : RegisterFile) (u : Bool) (g : Grade)
    (m n : Machine) : Prop where
  inFile : Within .inFile .inFile file u g m n
  left : a.spill m = m.file
  right : b.spill n = n.file

namespace Settled

variable {g h : Grade} {m n : Machine}

theorem within (hsettled : Settled a b file u g m n) : Within a b file u g m n := by
  obtain ⟨⟨⟨hreached, hfile, hscratch, hlimit, hflags, hleft, hright⟩, hkept⟩, ha, hb⟩ := hsettled
  refine ⟨⟨hreached, ?_, hscratch, hlimit, hflags, hleft, hright⟩, hkept⟩
  rw [ha, hb]
  exact hfile

theorem of_within (hwithin : Within a b file u g m n) (ha : a.spill m = m.file)
    (hb : b.spill n = n.file) : Settled a b file u g m n := by
  obtain ⟨⟨hreached, hfile, hscratch, hlimit, hflags, hleft, hright⟩, hkept⟩ := hwithin
  rw [ha, hb] at hfile
  exact ⟨⟨⟨hreached, hfile, hscratch, hlimit, hflags, hleft, hright⟩, hkept⟩, ha, hb⟩

theorem file_eq (hsettled : Settled a b file u g m n) : m.file = n.file :=
  hsettled.inFile.alike.file

theorem loosen (hsettled : Settled a b file u .tight m n) : Settled a b file u .loose m n :=
  ⟨⟨hsettled.inFile.alike.loosen, hsettled.inFile.kept⟩, hsettled.left, hsettled.right⟩

theorem perform (hsettled : Settled a b file u g m n) {o : Host.Op}
    (hop : Matching .inFile .inFile u g o o h) (s : Scratch)
    (hwrites : ∀ place size, o.writes = some (place, size) → place = .reg s.reg) :
    ∃ m' n', m.perform o = .ok m' ∧ n.perform o = .ok n' ∧ Confined u m m' ∧
      Settled a b file u h m' n' ∧ ∀ t : Scratch, t ≠ s → m'.state.reg t.reg = m.state.reg t.reg := by
  obtain ⟨m', n', hm, hn, hkept, hwithin⟩ := hsettled.inFile.perform hop
  obtain ⟨hbound, -, hnumber, -⟩ := s.reg_number
  have hspill (c : RegisterAssignment) {m m' : Machine} (hm : m.perform o = .ok m')
      (hc : c.spill m = m.file) : c.spill m' = m'.file := by
    obtain ⟨hfile, hregs⟩ := perform_reg hbound hwrites hm
    rw [hfile, ← hc]
    refine c.spill_congr hfile ?_
    intro r hlow hhigh
    apply hregs
    rintro rfl
    omega
  refine ⟨m', n', hm, hn, hkept,
    ⟨hwithin, hspill a hm hsettled.left, hspill b hn hsettled.right⟩, ?_⟩
  intro t ht
  exact (perform_reg hbound hwrites hm).2 _ fun heq => ht (Scratch.reg_injective heq)

end Settled

/-- Offset of the register that a turn of the loop moves. -/
def listOffset (descending : Bool) (turn : Nat) : Nat :=
  generalOffset (if descending then 15 - turn else turn)

/-- Hosts inside the loop over a register list: `P` says how much of the mask is left and which
register is pointed at. -/
def Listed (a b : RegisterAssignment) (file : RegisterFile) (u : Bool) (g : Grade)
    (P : UInt32 → UInt32 → Prop) (m n : Machine) : Prop :=
  Settled a b file u g m n ∧ P (m.state.reg temp) (m.state.reg scratch4)

/-- Before a turn. -/
def TurnStarts (descending : Bool) (rest place : UInt32) : Prop :=
  ∃ turn ≤ 15, rest.toNat >>> (16 - turn) = 0 ∧ place.toNat = listOffset descending turn

/-- The bit of this turn is shifted out. -/
def TurnRuns (descending : Bool) (rest place : UInt32) : Prop :=
  ∃ turn ≤ 15, rest.toNat >>> (15 - turn) = 0 ∧ place.toNat = listOffset descending turn

/-- The next register is pointed at, if there is one. -/
def TurnEnds (descending : Bool) (rest place : UInt32) : Prop :=
  ∃ turn ≤ 15, rest.toNat >>> (15 - turn) = 0 ∧
    (turn < 15 → place.toNat = listOffset descending (turn + 1))

theorem TurnRuns.slot (h : TurnRuns descending rest place) :
    ∃ r : Fin 16, place.toNat = generalOffset r := by
  obtain ⟨turn, hturn, -, hplace⟩ := h
  rw [hplace, listOffset]
  split
  · exact ⟨⟨15 - turn, by omega⟩, rfl⟩
  · exact ⟨⟨turn, by omega⟩, rfl⟩

theorem TurnStarts.shift (h : TurnStarts descending rest place) :
    TurnRuns descending (rest.toNat >>> 1).toUInt32 place := by
  obtain ⟨turn, hturn, hrest, hplace⟩ := h
  refine ⟨turn, hturn, ?_, hplace⟩
  have hlt : rest.toNat >>> 1 < 4294967296 := by
    rw [Nat.shiftRight_eq_div_pow]
    have := rest.toNat_lt
    omega
  rw [show (rest.toNat >>> 1).toUInt32.toNat = rest.toNat >>> 1 from Nat.mod_eq_of_lt hlt,
    ← Nat.shiftRight_add, ← hrest]
  congr 1
  omega

theorem TurnEnds.next (h : TurnEnds descending rest place) (hrest : rest ≠ 0) :
    TurnStarts descending rest place := by
  obtain ⟨turn, hturn, hleft, hplace⟩ := h
  rcases Nat.lt_or_eq_of_le hturn with hlt | rfl
  · refine ⟨turn + 1, hlt, ?_, hplace hlt⟩
    rwa [show 16 - (turn + 1) = 15 - turn by omega]
  · rw [Nat.sub_self, Nat.shiftRight_zero] at hleft
    exact absurd (UInt32.toNat_inj.mp hleft) hrest

namespace Sim

variable {c d : RegisterAssignment} {g h : Grade}
  {P : UInt32 → UInt32 → Prop} (config : Config)

theorem listed_data {o : Host.Op} (hop : Matching .inFile .inFile u g o o h) {s : Scratch}
    (htemp : s ≠ .temp) (hfourth : s ≠ .fourth)
    (hwrites : ∀ place size, o.writes = some (place, size) → place = .reg s.reg) :
    Sim a b u (Listed c d file u g P) [.op o] [.op o] (Listed c d file u h P) := by
  refine data hop.isData.1 hop.isData.1 ?_
  rintro m n ⟨hsettled, hP⟩
  obtain ⟨m', n', hm, hn, hkept, hsettled', hframe⟩ := hsettled.perform hop s hwrites
  refine ⟨m', n', hm, hn, hkept, hsettled', ?_⟩
  have hrest := hframe .temp htemp.symm
  have hplace := hframe .fourth hfourth.symm
  simp only [Scratch.reg] at hrest hplace
  rwa [hrest, hplace]

theorem listed_call {gate : Gate} (hgate : gate.isAccess = true) :
    Sim a b u (Listed a b file u .tight P) [.call gate] [.call gate] (Listed a b file u .tight P) := by
  refine ask (.access hgate) (fun m n hlisted => hlisted.1.within.alike) ?_
  rintro m n m' n' ⟨hsettled, hP⟩ hreturned
  refine ⟨.of_within (hsettled.within.returned hreturned) hreturned.left hreturned.right, ?_⟩
  have hrest := hreturned.scratch .temp nofun nofun
  have hplace := hreturned.scratch .fourth nofun nofun
  simp only [Scratch.reg] at hrest hplace
  rwa [hrest, hplace]

theorem offset?_fourth {m : Machine} {offset : Nat}
    (h : (m.state.reg scratch4).toNat = offset) :
    m.offset? scratch4 0 = some offset := by
  simp [offset?, h]

theorem listed_fetch (hP : ∀ rest place, P rest place →
      ∃ r : Fin 16, place.toNat = generalOffset r) :
    Sim a b u (Listed c d file u .loose P)
      (mov (.slot scratch4 0) (.reg scratch1) .long)
      (mov (.slot scratch4 0) (.reg scratch1) .long)
      (Listed c d file u .tight P) := by
  refine data rfl rfl ?_
  rintro m n ⟨hsettled, hlist⟩
  obtain ⟨r, hr⟩ := hP _ _ hlist
  have halike := hsettled.inFile.alike
  have hplace : n.state.reg scratch4 = m.state.reg scratch4 :=
    (halike.scratch .fourth nofun).symm
  have hfetch {m : Machine} (h : (m.state.reg scratch4).toNat = generalOffset r) :
      m.perform (.mov (.slot scratch4 0) (.reg scratch1) .long) =
        .ok (m.setReg scratch1 .long (m.file.part (generalOffset r) .long)) := by
    simp only [Machine.perform, Machine.read, offset?_fourth h,
      read_eq_part _ (generalOffset_bound r .long).1, bind, Except.bind,
      write]
  have hwritable : (Spot.scratch .first).Writable u .long := trivial
  refine ⟨_, _, hfetch hr, hfetch (hplace ▸ hr),
    Spot.write_confined .inFile halike.left hwritable rfl,
    ⟨⟨?_, hsettled.inFile.kept⟩, ?_, ?_⟩, ?_⟩
  · rw [hsettled.file_eq]
    exact halike.writeScratch .first .long _
  · exact (spill_setReg_scratch c m .first _).trans hsettled.left
  · exact (spill_setReg_scratch d n .first _).trans hsettled.right
  · simp only [setReg]
    rw [State.reg_setReg _ (by decide), State.reg_setReg _ (by decide), if_neg (by decide),
      if_neg (by decide)]
    exact hlist

/-- The first scratch register to the register pointed at. Host registers that stand for guest
registers may be out of date then. -/
theorem listed_store (hP : ∀ rest place, P rest place →
      ∃ r : Fin 16, place.toNat = generalOffset r) :
    Sim a b u (Listed c d file u .tight P)
      (mov (.reg scratch1) (.slot scratch4 0) .long)
      (mov (.reg scratch1) (.slot scratch4 0) .long)
      (Listed .inFile .inFile file u .tight P) := by
  refine data rfl rfl ?_
  rintro m n ⟨hsettled, hlist⟩
  obtain ⟨r, hr⟩ := hP _ _ hlist
  have halike := hsettled.inFile.alike
  have hplace : n.state.reg scratch4 = m.state.reg scratch4 :=
    (halike.scratch .fourth nofun).symm
  have hbound := (generalOffset_bound r .long).1
  have hstore {m : Machine} (h : (m.state.reg scratch4).toNat = generalOffset r) :
      m.perform (.mov (.reg scratch1) (.slot scratch4 0) .long) =
        .ok { m with
          file := m.file.put (generalOffset r) .long
            (m.state.reg scratch1 &&& Size.long.mask) } := by
    simp only [Machine.perform, Machine.read, offset?_fourth h,
      write?_eq_put _ _ hbound, bind, Except.bind, write]
  have hkept : Confined u m { m with
      file := m.file.put (generalOffset r) .long
        (m.state.reg scratch1 &&& Size.long.mask) } := by
    refine ⟨fun k hk => put_kept _ _ hbound (.inl ?_) hk, rfl,
      fun ready => ⟨ready.context, ready.stack⟩⟩
    rw [show generalOffset r = 4 * r from rfl, show Size.long.bytes = 4 from rfl]
    omega
  refine ⟨_, _, hstore hr, hstore (hplace ▸ hr), hkept, ⟨hsettled.inFile.moved ?_ hkept, rfl, rfl⟩,
    hlist⟩
  · refine halike.of_keeps ⟨fun _ => rfl, rfl, rfl, rfl, rfl⟩ ⟨fun _ => rfl, rfl, rfl, rfl, rfl⟩ ?_
    have hvalue : m.state.reg scratch1 = n.state.reg scratch1 :=
      halike.scratch .first fun _ => rfl
    rw [RegisterAssignment.spill_inFile, RegisterAssignment.spill_inFile]
    simp only [hvalue, hsettled.file_eq]

theorem listed_reload :
    Sim a b u (Listed .inFile .inFile file u g P) (reloadMapped (config.assign a))
      (reloadMapped (config.assign b)) (Listed a b file u g P) := by
  rw [RegisterAssignment.reloadMapped_eq, RegisterAssignment.reloadMapped_eq]
  refine straight a.reloadOps_isData b.reloadOps_isData a.reloadOps_confined ?_
  rintro m n ⟨hsettled, hlist⟩
  have halike := hsettled.inFile.alike
  refine ⟨halike.left, _, _, a.performAll_reload halike.left, b.performAll_reload halike.right,
    ⟨⟨?_, hsettled.inFile.kept⟩, a.spill_load m.file rfl fun _ _ _ => rfl,
      b.spill_load n.file rfl fun _ _ _ => rfl⟩, ?_⟩
  · refine halike.of_keeps (a.load_keeps m) (b.load_keeps n) ?_
    rw [RegisterAssignment.spill_inFile, RegisterAssignment.spill_inFile]
    exact hsettled.file_eq
  · simp only
    rw [a.load_reg _ _ (by decide), a.load_reg _ _ (by decide)]
    exact hlist

theorem spillMapped :
    Sim a b u (Within a b file u g) (spillMapped (config.assign a))
      (spillMapped (config.assign b)) (Settled a b file u g) := by
  rw [RegisterAssignment.spillMapped_eq, RegisterAssignment.spillMapped_eq]
  refine straight a.spillOps_isData b.spillOps_isData a.spillOps_confined ?_
  intro m n hwithin
  have halike := hwithin.alike
  refine ⟨halike.left, _, _, a.performAll_spill halike.left, b.performAll_spill halike.right, ⟨⟨?_, ?_⟩,
    a.spill_spill m, b.spill_spill n⟩⟩
  · exact ⟨halike.reached, halike.file, halike.scratch, halike.limit, halike.flags,
      ⟨halike.left.context, halike.left.stack⟩, ⟨halike.right.context, halike.right.stack⟩⟩
  · intro hu k hk
    rw [← hwithin.kept hu k hk]
    exact a.spill_kept m hk

theorem mono_listed {f f' : Fragment} (p : Sim a b u (Listed a b file u .loose P) f f'
      (Listed a b file u .tight P)) :
    Sim a b u (Listed a b file u .loose P) f f' (Listed a b file u .loose P) :=
  p.mono (fun _ _ hlisted => hlisted) fun _ _ hlisted => ⟨hlisted.1.loosen, hlisted.2⟩

theorem listed_stride {o : Alu} (ho : o.stores = true) (stride : UInt32) :
    Sim a b u (Listed c d file u g P)
      (alu o (.imm stride) (.reg scratch2) .long)
      (alu o (.imm stride) (.reg scratch2) .long) (Listed c d file u g P) := by
  refine listed_data (s := .second)
    (.alu (s := .const stride) (d := .scratch .second) trivial nofun fun _ => trivial) nofun nofun ?_
  intro place size hwrites
  rw [Host.Op.writes, if_pos ho] at hwrites
  exact (Prod.mk.inj (Option.some.inj hwrites)).1.symm

theorem writes_reg {r : Reg} {z : Size} {x : Option (Place × Size)} (hx : x = some (.reg r, z))
    (place : Place) (size : Size) (h : x = some (place, size)) : place = .reg r :=
  (Prod.mk.inj (Option.some.inj (hx.symm.trans h))).1.symm

theorem listed_transfer (move : ListMove)
    (hP : ∀ rest place, P rest place → ∃ r : Fin 16, place.toNat = generalOffset r) :
    Sim a b u (Listed a b file u .loose P)
      (transferOne move (.slot scratch4 0) ++
        if move.toMemory then [] else reloadMapped (config.assign a))
      (transferOne move (.slot scratch4 0) ++
        if move.toMemory then [] else reloadMapped (config.assign b))
      (Listed a b file u .loose P) := by
  obtain ⟨size, toMemory, descending⟩ := move
  cases toMemory with
  | true =>
    have hgate (lowFirst : Bool) : (Gate.ofWrite size lowFirst).isAccess = true := by
      cases size <;> cases lowFirst <;> rfl
    simp only [if_true, List.append_nil]
    cases descending with
    | true =>
      exact mono_listed (((listed_stride rfl _).append rfl (listed_fetch hP)).append rfl
        (listed_call (hgate true)))
    | false =>
      exact mono_listed (((listed_fetch hP).append rfl (listed_call (hgate false))).append rfl
        (listed_stride rfl _))
  | false =>
    have hgate : (Gate.ofRead size).isAccess = true := by cases size <;> rfl
    have haddress : Sim a b u (Listed a b file u .loose P)
        (mov (.reg scratch2) (.reg scratch1) .long)
        (mov (.reg scratch2) (.reg scratch1) .long)
        (Listed a b file u .tight P) :=
      listed_data (s := .first)
        (.mov (s := .scratch .second) (d := .scratch .first) nofun trivial) nofun nofun
        (writes_reg rfl)
    have hextend : Sim a b u (Listed a b file u .tight P)
        (if size = .word then movsx (.reg scratch1) scratch1 .word .long else [])
        (if size = .word then movsx (.reg scratch1) scratch1 .word .long else [])
        (Listed a b file u .tight P) := by
      split
      · exact listed_data (s := .first)
          (.movsx (s := .scratch .first) (d := .first) fun _ => rfl) nofun nofun (writes_reg rfl)
      · exact nil
    exact mono_listed ((((((haddress.append rfl (listed_call hgate)).append rfl hextend).append rfl
      (listed_store hP)).append rfl (listed_stride rfl _))).append rfl (listed_reload config))

theorem listed_shift :
    Sim a b u (Listed a b file u .loose (TurnStarts descending))
      (shiftBy .shr 1 (.reg temp) .long)
      (shiftBy .shr 1 (.reg temp) .long)
      (Listed a b file u .loose (TurnRuns descending)) := by
  refine data rfl rfl ?_
  rintro m n ⟨hsettled, hturn⟩
  obtain ⟨m', n', hm, hn, hkept, hsettled', hframe⟩ := hsettled.perform
    (.shiftBy (o := .shr) (k := 1) (d := .scratch .temp) (z := .long) nofun trivial) .temp
    (writes_reg rfl)
  refine ⟨m', n', hm, hn, hkept, hsettled', ?_⟩
  have hplace := hframe .fourth nofun
  have hrest : m'.state.reg temp = ((m.state.reg temp).toNat >>> 1).toUInt32 := by
    simp only [Machine.perform, Spot.place, Scratch.reg, Machine.count, Machine.read,
      and_mask_long, Shift.apply, Shift.shiftRight, write, setReg,
      Alike.merge_long, bind, Except.bind] at hm
    have hnonzero : ((1 : UInt8).toNat = 0) = False := by decide
    simp only [hnonzero, if_false, Except.ok.injEq] at hm
    rw [← hm]
    simp only [Machine.setFlags]
    rw [State.reg_setReg _ (by decide), if_pos rfl]
    apply UInt32.toNat_inj.mp
    have hlt : (m.state.reg temp).toNat >>> 1 < 4294967296 := by
      rw [Nat.shiftRight_eq_div_pow]
      have := (m.state.reg temp).toNat_lt
      omega
    exact congrArg (fun x : Nat => x.toUInt32.toNat) (Nat.mod_eq_of_lt hlt)
  simp only [Scratch.reg] at hplace
  rw [hplace, hrest]
  exact hturn.shift

theorem listed_step :
    Sim a b u (Listed a b file u .loose (TurnRuns descending))
      (alu (if descending then .sub else .add) (.imm 4) (.reg scratch4) .long)
      (alu (if descending then .sub else .add) (.imm 4) (.reg scratch4) .long)
      (Listed a b file u .loose (TurnEnds descending)) := by
  have hstores : (if descending then Alu.sub else Alu.add).stores = true := by
    cases descending <;> rfl
  refine data rfl rfl ?_
  rintro m n ⟨hsettled, turn, hturn, hrest, hplace⟩
  obtain ⟨m', n', hm, hn, hkept, hsettled', hframe⟩ := hsettled.perform
    (.alu (o := if descending then .sub else .add) (s := .const 4) (d := .scratch .fourth)
      (z := .long) trivial nofun fun _ => trivial) .fourth
    (writes_reg (if_pos hstores))
  refine ⟨m', n', hm, hn, hkept, hsettled', turn, hturn, ?_, ?_⟩
  · have htemp := hframe .temp nofun
    simp only [Scratch.reg] at htemp
    rwa [htemp]
  · intro hlt
    simp only [Machine.perform, Spot.place, Scratch.reg, Machine.read,
      and_mask_long, hstores, if_true, write, setReg,
      Alike.merge_long, bind, Except.bind, Except.ok.injEq] at hm
    rw [← hm]
    simp only [Machine.setFlags]
    rw [State.reg_setReg _ (by decide), if_pos rfl]
    have hlong : Size.long.modulus = 4294967296 := rfl
    cases descending with
    | true =>
      have hnow : listOffset true turn = 4 * (15 - turn) := rfl
      have hnext : listOffset true (turn + 1) = 4 * (15 - (turn + 1)) := rfl
      have hfour : (4 : UInt32).toNat = 4 := rfl
      simp only [if_true, Alu.apply, subWith]
      rw [hnext, hlong, hplace, hnow, hfour, show Bool.toNat false = 0 from rfl]
      have hdifference : (4294967296 + 4 * (15 - turn) - (4 + 0)) % 4294967296 =
          4 * (15 - (turn + 1)) := by omega
      rw [hdifference]
      exact Nat.mod_eq_of_lt (by omega)
    | false =>
      have hnow : listOffset false turn = 4 * turn := rfl
      have hnext : listOffset false (turn + 1) = 4 * (turn + 1) := rfl
      have hfour : (4 : UInt32).toNat = 4 := rfl
      have hsum : (4 * turn + 4 + 0) % 4294967296 = 4 * (turn + 1) := by omega
      simp only [Bool.false_eq_true, if_false, Alu.apply, addWith, hlong, hplace, hnow, hfour,
        show Bool.toNat false = 0 from rfl, hnext, hsum]
      exact Nat.mod_eq_of_lt (by omega)

theorem listed_test :
    Sim a b u (Listed a b file u .loose (TurnEnds descending))
      (alu .test (.reg temp) (.reg temp) .long)
      (alu .test (.reg temp) (.reg temp) .long)
      (fun m n => Listed a b file u .loose (TurnEnds descending) m n ∧
        m.state.flags.holds .notEqual = !(m.state.reg temp == 0)) := by
  refine data rfl rfl ?_
  rintro m n ⟨hsettled, hturn⟩
  obtain ⟨m', n', hm, hn, hkept, hsettled', hframe⟩ := hsettled.perform
    (.alu (o := .test) (s := .scratch .temp) (d := .scratch .temp) (z := .long) nofun nofun
      fun h => absurd h Bool.false_ne_true)
    .first (fun _ _ hwrites => absurd hwrites (by simp [Host.Op.writes, Alu.stores]))
  have hrest := hframe .temp nofun
  have hplace := hframe .fourth (by decide)
  simp only [Scratch.reg] at hrest hplace
  refine ⟨m', n', hm, hn, hkept, ⟨hsettled', ?_⟩, ?_⟩
  · rwa [hrest, hplace]
  · rw [hrest]
    simp only [Machine.perform, Spot.place, Scratch.reg, Machine.read,
      and_mask_long, Alu.stores, Alu.apply, bind, Except.bind, pure,
      Except.pure, Bool.false_eq_true, if_false, Except.ok.injEq, UInt32.and_self] at hm
    rw [← hm]
    simp only [Machine.setFlags, Flags.holds, Flags.ofResult, and_mask_long]

theorem listed_start (descending : Bool) (bits : UInt16) :
    Sim a b u (Settled a b file u .loose)
      (load bits.toUInt32 temp ++
        lea context
          (Int32.ofNat (if descending then generalOffset 15 else 0)) scratch4)
      (load bits.toUInt32 temp ++
        lea context
          (Int32.ofNat (if descending then generalOffset 15 else 0)) scratch4)
      (Listed a b file u .loose (TurnStarts descending)) := by
  have hload : Sim a b u (Settled a b file u .loose) (load bits.toUInt32 temp)
      (load bits.toUInt32 temp) fun m n =>
        Settled a b file u .loose m n ∧ m.state.reg temp = bits.toUInt32 := by
    refine data rfl rfl ?_
    intro m n hsettled
    obtain ⟨m', n', hm, hn, hkept, hsettled', -⟩ := hsettled.perform
      (.mov (s := .const bits.toUInt32) (d := .scratch .temp) (z := .long) trivial trivial) .temp
      (writes_reg rfl)
    refine ⟨m', n', hm, hn, hkept, hsettled', ?_⟩
    simp only [Machine.perform, Spot.place, Scratch.reg, Machine.read,
      and_mask_long, write, setReg, Alike.merge_long, bind,
      Except.bind, Except.ok.injEq] at hm
    rw [← hm]
    exact (State.reg_setReg _ (by decide) _ _).trans (if_pos rfl)
  refine hload.append rfl (data rfl rfl ?_)
  rintro m n ⟨hsettled, hrest⟩
  -- The base of the file is no scratch register, but both hosts have it.
  have halike := hsettled.inFile.alike
  have hset (offset : UInt32) := halike.setScratch .fourth (v := offset) (w := offset)
    halike.reached (fun _ => rfl) fun _ htight => htight
  refine ⟨_, _, rfl, rfl, ⟨fun _ _ => rfl, ?_, ?_⟩, ⟨⟨?_, hsettled.inFile.kept⟩, ?_, ?_⟩, 0,
    by omega, ?_, ?_⟩
  · exact (State.reg_setReg _ (by decide) _ _).trans (if_neg (by decide))
  · intro ready
    exact ⟨((State.reg_setReg _ (by decide) _ _).trans (if_neg (by decide))).trans ready.context,
      ready.stack⟩
  · rw [halike.left.context, halike.right.context]
    exact hset _
  · exact (spill_setReg_scratch a m .fourth _).trans hsettled.left
  · exact (spill_setReg_scratch b n .fourth _).trans hsettled.right
  · simp only
    rw [State.reg_setReg _ (by decide), if_neg (by decide), hrest]
    have hbits : bits.toUInt32.toNat < 65536 := bits.toNat_lt
    rw [Nat.shiftRight_eq_div_pow]
    exact Nat.div_eq_of_lt hbits
  · simp only
    rw [State.reg_setReg _ (by decide), if_pos rfl, halike.left.context]
    cases descending <;> decide

theorem transferLoop (move : Codegen.ListMove) (mask : UInt16) :
    Sim a b u (Within a b file u .loose) (transferLoop (config.assign a) move mask)
      (transferLoop (config.assign b) move mask) (Within a b file u .loose) := by
  have hslot (rest place : UInt32) (h : TurnRuns move.descending rest place) :
      ∃ r : Fin 16, place.toNat = generalOffset r := h.slot
  have hmove := (listed_transfer config move hslot).mono
    (fun m n (hlisted : Listed a b file u .loose (TurnRuns move.descending) m n ∧
      m.state.flags.holds .aboveEqual = false) => hlisted.1) fun m n hlisted => hlisted
  have hskip := skipIf (fun m n hlisted => hlisted.1.inFile.alike.flags)
    (fun m n hlisted _ => hlisted) hmove
  have hlinks (c : RegisterAssignment) : Fragment.targets (Codegen.skipIf .aboveEqual
      (Codegen.transferOne move (.slot scratch4 0) ++
        if move.toMemory then [] else Codegen.reloadMapped (config.assign c))) = [] := by
    rw [Codegen.skipIf, Fragment.targets_append, Fragment.targets_append,
      Fragment.targets_transferOne]
    split
    · rfl
    · exact Fragment.targets_reloadMapped _
  have hbody := (listed_shift.append rfl hskip).append
    (by rw [Fragment.targets_append, Fragment.targets_append, hlinks, hlinks]) listed_step
  have hturn := hbody.append
    (by simp only [Fragment.targets_append, hlinks]) listed_test
  have hagain (m n : Machine) (hmid : Listed a b file u .loose (TurnEnds move.descending) m n ∧
      m.state.flags.holds .notEqual = !(m.state.reg temp == 0))
      (htest : m.state.flags.holds .notEqual = true) :
      Listed a b file u .loose (TurnStarts move.descending) m n := by
    obtain ⟨⟨hsettled, hends⟩, hflag⟩ := hmid
    refine ⟨hsettled, hends.next ?_⟩
    intro hzero
    rw [htest, hzero] at hflag
    exact absurd hflag (by decide)
  have hloop : Sim a b u _ _ _ (Within a b file u .loose) := loop (t := .notEqual) hturn
    (fun m n hmid => hmid.1.1.inFile.alike.flags) hagain (fun m n hmid _ => hmid.1.1.within)
  have hstart := (listed_start move.descending
    (if move.descending then Word.reverse mask else mask)).append rfl hloop
  have hwhole := (spillMapped config).append
    (by rw [Fragment.targets_spillMapped, Fragment.targets_spillMapped]) hstart
  simp only [Codegen.transferLoop, List.append_assoc] at hwhole ⊢
  exact hwhole

end Sim

end Dynarec68k
