import Dynarec68k.Proofs.GuestAccesses

namespace Dynarec68k

open Host Codegen Role RegisterFile

/-- What the guest sees in the middle of a list, and the address that was come to. -/
structure Walk where
  guest : Guest
  address : UInt32

/-- One register to or from memory. -/
def Codegen.ListMove.one (move : ListMove) (config : Config) (w : Walk) (reg : Fin 16) :
    Except OddAccess Walk :=
  let stride := move.size.bytes.toUInt32
  if move.toMemory then
    let value := w.guest.registers.general reg
    if move.descending then do
      let g ← w.guest.store config move.size true (w.address - stride) value
      return ⟨g, w.address - stride⟩
    else do
      let g ← w.guest.store config move.size false w.address value
      return ⟨g, w.address + stride⟩
  else do
    let (value, g) ← w.guest.load config move.size w.address
    let value := if move.size = .word then Word.signExtend16 value else value
    return ⟨{ g with registers := g.registers.setGeneral reg value }, w.address + stride⟩

def Codegen.ListMove.all (move : ListMove) (config : Config) (w : Walk) (regs : List (Fin 16)) :
    Except OddAccess Walk :=
  regs.foldlM (move.one config) w

/-- The address is in the second scratch register, and something is known of others. -/
def Walk.view (w : Walk) (known : Scratch → Option UInt32) : View :=
  ⟨w.guest, Function.update known .second (some w.address)⟩

/-- Nothing else is known. -/
abbrev Walk.plain (config : Config) (w : Walk) : Fact :=
  (w.view fun _ => none).On config.Own

section

variable {config : Config} {needs : Needs} {E : OddAccess → Prop} {A : Allowance config needs E}
  {C D : RegisterAssignment → Prop} {i : Nat} {move : ListMove} {w : Walk} {reg : Fin 16}
  {known : Scratch → Option UInt32} {σ : View}

theorem transferOne_follows (hC : ∀ a, C a → a = config.registerAssignment ∨ a = .inFile)
    (ha : C config.registerAssignment) {slot : Place} {tail : Fragment}
    (hfirst : known .first = none)
    (hfetch : ∀ σ : View, σ.known .fourth = known .fourth → Leads A (σ.On C)
      (mov slot (.reg scratch1) .long)
      ((σ.set (σ.guest.registers.general reg) (.scratch .first)).On C))
    (hput : ∀ (σ : View) (v : UInt32), σ.known .fourth = known .fourth → σ.known .first = some v →
      Leads A (σ.On C) (mov (.reg scratch1) slot .long) ((σ.set v (.guest reg)).On D))
    (htail : ∀ σ : View, Leads A (σ.On D) tail (σ.On C)) :
    Follows A (i + 1) ((w.view known).On C)
      (transferOne move slot ++ if move.toMemory then [] else tail) i (move.one config w reg)
      fun w => (w.view known).On C := by
  obtain ⟨size, toMemory, descending⟩ := move
  have hforth {C : RegisterAssignment → Prop} {σ : View} {x : UInt32}
      (hx : σ.known .second = some x) : Leads A (σ.On C)
      (alu .add (.imm size.bytes.toUInt32) (.reg scratch2) .long)
      ((σ.set (x + size.bytes.toUInt32) (.scratch .second)).On C) :=
    .add (s := .const _) (d := .scratch .second) (fun _ _ => rfl) rfl (fun _ _ => rfl) (by decide) rfl
      hx
  cases toMemory with
  | true =>
    simp only [transferOne, if_true, List.append_nil]
    cases descending with
    | true =>
      refine (Follows.after (.append (.sub (s := .const _) (d := .scratch .second) (fun _ _ => rfl)
        rfl (fun _ _ => rfl) (by decide) rfl rfl) (hfetch _ rfl)) (.write hC ha rfl rfl)).map
          fun g m memory _ hview => hview.weaken rfl fun s v hs => ?_
      cases s <;> first | exact hs | cases hfirst.symm.trans hs
    | false =>
      refine ((Follows.after (hfetch _ rfl) (.write hC ha rfl rfl)).before fun g _ =>
        hforth rfl).map fun g m memory _ hview => hview.weaken rfl fun s v hs => ?_
      cases s <;> first | exact hs | cases hfirst.symm.trans hs
  | false =>
    have haddress : Leads A ((w.view known).On C) (mov (.reg scratch2)
        (.reg scratch1) .long) (((w.view known).set w.address (.scratch .first)).On C) :=
      .mov (s := .scratch .second) (d := .scratch .first) (fun _ _ => rfl) rfl (fun _ _ => rfl)
        (by decide) rfl
    have hextend {σ : View} {v : UInt32} (hv : σ.known .first = some v) : Leads A (σ.On C)
        (if size = .word then movsx (.reg scratch1) scratch1 .word .long else [])
        ((σ.set (if size = .word then Word.signExtend16 v else v) (.scratch .first)).On C) := by
      split
      · exact .extend (s := .scratch .first) (t := .first) (fun _ _ => rfl) hv (by decide)
      · refine Leads.nil.mono fun m memory hview => hview.weaken rfl fun s w hs => ?_
        cases s <;> first | exact hs | exact hv.trans hs
    simp only [transferOne, Bool.false_eq_true, if_false]
    refine (((((Follows.after haddress (.read hC ha rfl)).before fun r _ => hextend rfl).before
      fun r _ => hput _ _ rfl rfl).before fun r _ => hforth rfl).before fun r _ => htail _).map
        fun r m memory _ hview => hview.weaken rfl fun s v hs => ?_
    cases s <;> first | exact hs | cases hfirst.symm.trans hs

variable (move) (w) in
theorem transferStraight_follows (regs : List (Fin 16)) :
    Follows A (i + regs.length) (w.plain config)
      (regs.flatMap fun reg => transferOne move (config.generalPlace reg)) i
      (move.all config w regs) (Walk.plain config) := by
  induction regs generalizing w with
  | nil => exact .done .nil
  | cons reg rest ih =>
    have hone : Follows A (i + rest.length + 1) (w.plain config)
        (transferOne move (config.generalPlace reg) ++ if move.toMemory then [] else [])
        (i + rest.length) (move.one config w reg) (Walk.plain config) :=
      transferOne_follows (D := config.Own) (fun _ => .inl) rfl rfl
        (fun σ _ => .mov (s := .guest reg) (d := .scratch .first) (fun _ h => h ▸ rfl) rfl
          (fun _ _ => rfl) (by decide) rfl)
        (fun σ v _ hv => .mov (s := .scratch .first) (d := .guest reg) (fun _ _ => rfl) hv
          (fun _ h => h ▸ rfl) (Built.place_guest_ne _ reg .cycles) rfl) fun σ => .nil
    rw [ite_self, List.append_nil] at hone
    exact hone.bind fun w' _ => ih w'

/-- The register that a loop over all of them comes to with so many turns left. -/
def turnOf (descending : Bool) (left : Nat) : Fin 16 :=
  Fin.ofNat 16 (if descending then left else 15 - left)

/-- The registers that are left then, in the order they are moved. -/
def turnsLeft (descending : Bool) (left : Nat) : List (Fin 16) :=
  (List.range left).reverse.map (turnOf descending)

/-- The registers of a mask in the order they are moved. -/
def listed (descending : Bool) (mask : UInt16) : List (Fin 16) :=
  (transferOrder descending).filter fun reg => mask.toNat.testBit reg.val

/-- What the loop keeps: the rest of the mask, and where the register is in the file. -/
def turning (rest place : UInt32) : Scratch → Option UInt32
  | .temp => some rest
  | .fourth => some place
  | _ => none

def placeOf (reg : Fin 16) : UInt32 :=
  (generalOffset reg).toUInt32

/-- The place of the next register. -/
def placeAfter (descending : Bool) (place : UInt32) : UInt32 :=
  if descending then place - 4 else place + 4

/-- The register file is up to date too. -/
def Config.Settles (config : Config) (a : RegisterAssignment) : Prop :=
  a = config.registerAssignment ∨ a = .inFile

theorem clock_spared (a : RegisterAssignment) :
    ∀ o ∈ a.spillOps ++ a.reloadOps, o.Spares cycles := by
  have hall : ∀ o ∈ a.spillOps ++ a.reloadOps, ∀ w ∈ o.writes, w.1 ≠ Place.reg cycles := by
    cases a <;> decide
  exact fun o ho place size hwrites => hall o ho (place, size) hwrites

theorem spillMapped_leads : Leads A (σ.On config.Own)
    (spillMapped config) (σ.On config.Settles) := by
  rw [show spillMapped config = _ from
    RegisterAssignment.spillMapped_eq config config.registerAssignment]
  refine .ops (RegisterAssignment.spillOps_isData _)
    (fun o ho => clock_spared _ o (List.mem_append_left _ ho)) fun m memory hready hview => ?_
  obtain ⟨hguest, hknown⟩ := hview _ rfl
  refine ⟨_, RegisterAssignment.performAll_spill _ hready, fun a ha => ⟨?_, hknown⟩⟩
  rw [← hguest]
  rcases ha with rfl | rfl
  · exact Guest.seen_congr memory (RegisterAssignment.spill_spill _ m) rfl
  · rfl

theorem reloadMapped_leads : Leads A (σ.On (· = .inFile)) (reloadMapped config)
    (σ.On config.Settles) := by
  rw [show reloadMapped config = _ from
    RegisterAssignment.reloadMapped_eq config config.registerAssignment]
  refine .ops (RegisterAssignment.reloadOps_isData _)
    (fun o ho => clock_spared _ o (List.mem_append_right _ ho)) fun m memory hready hview => ?_
  obtain ⟨hguest, hknown⟩ := hview _ rfl
  have hkeeps := config.registerAssignment.load_keeps m
  refine ⟨_, RegisterAssignment.performAll_reload _ hready, fun a ha =>
    ⟨?_, fun s v hs hv => (hkeeps.scratch s).trans (hknown s v hs hv)⟩⟩
  rw [← hguest]
  refine Guest.seen_congr memory (Eq.trans ?_ (RegisterAssignment.spill_inFile m).symm)
    (hkeeps.scratch .cycles)
  rcases ha with rfl | rfl
  · exact RegisterAssignment.spill_load _ m.file rfl fun _ _ _ => rfl
  · exact RegisterAssignment.spill_inFile _

section

variable {σ : View} (hplace : σ.known .fourth = some (placeOf reg))
include hplace

theorem offset?_of_view {m : Machine} {memory : MemoryMap} (hview : σ.On config.Settles m memory) :
    m.offset? scratch4 0 = some (generalOffset reg) ∧
      m.file = σ.guest.registers := by
  obtain ⟨hguest, hknown⟩ := hview .inFile (.inr rfl)
  refine ⟨Sim.offset?_fourth ?_, congrArg Guest.registers hguest⟩
  rw [show m.state.reg scratch4 = placeOf reg from hknown _ _ (by decide) hplace]
  have hall : ∀ reg : Fin 16, (placeOf reg).toNat = generalOffset reg := by decide
  exact hall reg

theorem fetch_leads : Leads A (σ.On config.Settles)
    (mov (.slot scratch4 0) (.reg scratch1) .long)
    ((σ.set (σ.guest.registers.general reg) (.scratch .first)).On config.Settles) := by
  refine .op rfl (Op.spares_of_writes rfl (by decide)) fun m m' memory _ hview hperform a ha => ?_
  obtain ⟨hoffset, hfile⟩ := offset?_of_view hplace hview
  simp only [Machine.perform, Machine.read, hoffset, hfile,
    read_eq_part _ (Machine.generalOffset_bound reg .long).1, bind, Except.bind] at hperform
  cases hperform
  rw [general_eq_part _ reg.isLt]
  exact (hview a ha).setReg (t := .first) (by decide) _

theorem put_leads {v : UInt32} (hv : σ.known .first = some v) : Leads A (σ.On config.Settles)
    (mov (.reg scratch1) (.slot scratch4 0) .long)
    ((σ.set v (.guest reg)).On (· = .inFile)) := by
  refine .op rfl (Op.spares_of_writes rfl (by decide)) fun m m' memory _ hview hperform a ha => ?_
  obtain ⟨hoffset, hfile⟩ := offset?_of_view hplace hview
  obtain ⟨hguest, hknown⟩ := hview .inFile (.inr rfl)
  simp only [Machine.perform, Machine.read, Machine.write, hoffset, and_mask_long,
    write?_eq_put _ _ (Machine.generalOffset_bound reg .long).1, bind, Except.bind,
    show m.state.reg scratch1 = v from hknown _ _ (by decide) hv] at hperform
  cases hperform
  subst ha
  refine ⟨?_, hknown⟩
  rw [View.set, ← hguest, setGeneral_eq_put _ _ reg.isLt]
  rfl

end

theorem shift_leads {rest place : UInt32} :
    Leads A ((w.view (turning rest place)).On config.Settles)
      (shiftBy .shr 1 (.reg temp) .long) fun m memory =>
        (w.view (turning (rest / 2) place)).On config.Settles m memory ∧
          m.state.flags.carry = rest.toNat.testBit 0 := by
  refine .op rfl (Op.spares_of_writes rfl (by decide)) fun m m' memory _ hview hperform => ?_
  have hrest : m.state.reg temp = rest :=
    (hview .inFile (.inr rfl)).known .temp rest (by decide) rfl
  have hm := Except.ok.inj hperform
  rw [and_mask_long, hrest] at hm
  have hhalf : (Shift.shiftRight .long rest 1).1 = rest / 2 := by
    apply UInt32.toNat_inj.mp
    have hbound := rest.toNat_lt
    change (rest.toNat >>> 1 % 2 ^ 32).toUInt32.toNat = _
    rw [UInt32.toNat_ofNat', Nat.shiftRight_eq_div_pow, UInt32.toNat_div]
    change _ = rest.toNat / 2
    omega
  rw [← hm]
  refine ⟨View.On.weaken (σ := (w.view (turning rest place)).set (rest / 2) (.scratch .temp))
    (fun a ha => ?_) rfl fun s v hs => ?_, rfl⟩
  · rw [← hhalf]
    exact ((hview a ha).setFlags _).setReg (t := .temp) (by decide) _
  · cases s <;> exact hs

theorem test_leads {rest : UInt32} (hrest : σ.known .temp = some rest) :
    Leads A (σ.On config.Settles) (alu .test (.reg temp) (.reg temp) .long)
      fun m memory => σ.On config.Settles m memory ∧
        m.state.flags.holds .notEqual = !decide (rest = 0) := by
  refine .op rfl (Op.spares_of_none rfl) fun m m' memory _ hview hperform => ?_
  have hreg : m.state.reg temp = rest :=
    (hview .inFile (.inr rfl)).known .temp rest (by decide) hrest
  have hm := Except.ok.inj hperform
  rw [and_mask_long, hreg] at hm
  rw [← hm]
  refine ⟨fun a ha => (hview a ha).setFlags _, congrArg not ?_⟩
  change (rest &&& rest &&& Size.long.mask == 0) = _
  rw [and_mask_long, UInt32.and_self]
  rfl

variable (move) (w) (rest : UInt32) (descending : Bool) (mask : UInt16) (left : Nat)

theorem turn_follows :
    Follows A (i + 1) ((w.view (turning rest (placeOf (turnOf move.descending left)))).On
        config.Settles)
      (shiftBy .shr 1 (.reg temp) .long ++
        skipIf .aboveEqual (transferOne move (.slot scratch4 0) ++
          if move.toMemory then [] else reloadMapped config) ++
        alu (if move.descending then .sub else .add) (.imm 4) (.reg scratch4) .long ++
        alu .test (.reg temp) (.reg temp) .long) i
      (if rest.toNat.testBit 0 then move.one config w (turnOf move.descending left) else .ok w)
      fun w' m memory => (w'.view (turning (rest / 2) (placeAfter move.descending
          (placeOf (turnOf move.descending left))))).On config.Settles m memory ∧
        m.state.flags.holds .notEqual = !decide (rest / 2 = 0) := by
  have hone : Follows A (i + 1) ((w.view (turning (rest / 2)
      (placeOf (turnOf move.descending left)))).On config.Settles)
      (transferOne move (.slot scratch4 0) ++
        if move.toMemory then [] else reloadMapped config) i
      (move.one config w (turnOf move.descending left)) fun w' => (w'.view (turning (rest / 2)
        (placeOf (turnOf move.descending left)))).On config.Settles :=
    transferOne_follows (fun _ h => h) (.inl rfl) rfl (fun _ => fetch_leads)
      (fun _ _ h hv => put_leads h hv) fun _ => reloadMapped_leads
  have hstep {w' : Walk} {place : UInt32} : Leads A
      ((w'.view (turning (rest / 2) place)).On config.Settles)
      (alu (if move.descending then .sub else .add) (.imm 4) (.reg scratch4) .long)
      ((w'.view (turning (rest / 2) (placeAfter move.descending place))).On config.Settles) := by
    have hweaken {x : UInt32} (m : Machine) (memory : MemoryMap)
        (hview : ((w'.view (turning (rest / 2) place)).set x (.scratch .fourth)).On config.Settles m
          memory) : (w'.view (turning (rest / 2) x)).On config.Settles m memory :=
      hview.weaken rfl fun s v hs => by cases s <;> exact hs
    cases move.descending with
    | true =>
      exact (Leads.sub (s := .const 4) (d := .scratch .fourth) (fun _ _ => rfl) rfl (fun _ _ => rfl)
        (by decide) rfl rfl).mono hweaken
    | false =>
      exact (Leads.add (s := .const 4) (d := .scratch .fourth) (fun _ _ => rfl) rfl (fun _ _ => rfl)
        (by decide) rfl rfl).mono hweaken
  refine ((Follows.after shift_leads (.skipIf (b := rest.toNat.testBit 0) (hone.weaken
    fun _ _ h => h.1) (fun _ _ h => h.1) fun m memory h => ?_)).before fun w' _ => hstep).before
      fun w' _ => test_leads rfl
  rw [Flags.holds, h.2]

theorem turnsLeft_succ :
    turnsLeft descending (left + 1) = turnOf descending left :: turnsLeft descending left := by
  rw [turnsLeft, List.range_succ, List.reverse_append]
  rfl

theorem placeAfter_turnOf {left : Nat} (h : left < 15) :
    placeAfter descending (placeOf (turnOf descending (left + 1))) =
      placeOf (turnOf descending left) := by
  have hall : ∀ (descending : Bool) (left : Fin 15), placeAfter descending
      (placeOf (turnOf descending (left.val + 1))) = placeOf (turnOf descending left.val) := by
    decide
  exact hall descending ⟨left, h⟩

theorem turns_follow {p : Fin 16 → Bool} (hrest : rest.toNat < 2 ^ 16)
    (hbits : ∀ j ≤ 15, rest.toNat.testBit (15 - j) = p (turnOf move.descending j)) :
    Follows A (i + 16) ((w.view (turning rest (placeOf (turnOf move.descending 15)))).On
        config.Settles)
      (repeatWhile .notEqual (shiftBy .shr 1 (.reg temp) .long ++
        skipIf .aboveEqual (transferOne move (.slot scratch4 0) ++
          if move.toMemory then [] else reloadMapped config) ++
        alu (if move.descending then .sub else .add) (.imm 4) (.reg scratch4) .long ++
        alu .test (.reg temp) (.reg temp) .long)) i
      (move.all config w ((turnsLeft move.descending 16).filter p)) (Walk.plain config) := by
  intro hforeseen
  generalize hx : move.all config w ((turnsLeft move.descending 16).filter p) = x at hforeseen ⊢
  refine Contract.weaken (Contract.loop (S := fun left spent m memory => ∃ (w : Walk) (rest : UInt32),
      left < 16 ∧ rest.toNat < 2 ^ (left + 1) ∧
      (∀ j ≤ left, rest.toNat.testBit (left - j) = p (turnOf move.descending j)) ∧
      move.all config w ((turnsLeft move.descending (left + 1)).filter p) = x ∧
      A.At (i + left + 1) ((w.view (turning rest (placeOf (turnOf move.descending left)))).On
        config.Settles) spent m memory) (fun left => ?_) 15)
    (fun _ _ _ hat => ⟨w, rest, by decide, hrest, hbits, hx, hat⟩) fun _ _ _ hlast => hlast
  clear hx hrest hbits
  rintro spent m memory hready ⟨w, rest, hleft, hrest, hbits, hx, hat⟩
  have hall : move.all config w ((turnsLeft move.descending (left + 1)).filter p) =
      (if rest.toNat.testBit 0 then move.one config w (turnOf move.descending left)
        else .ok w) >>= fun w => move.all config w ((turnsLeft move.descending left).filter p) := by
    have hbit := hbits left (Nat.le_refl left)
    rw [Nat.sub_self] at hbit
    rw [turnsLeft_succ, List.filter_cons, hbit]
    split <;> rfl
  rw [hall] at hx
  have hturn := turn_follows (A := A) (i := i + left) move w rest left fun e he =>
    hforeseen e (by rw [← hx, he]; rfl)
  refine (hturn spent m memory hready hat).mono ?_
  rintro spent m memory ⟨hready, w', hw', htime, hview, hflags⟩
  rw [hw'] at hx
  have hhalf : (rest / 2).toNat = rest.toNat / 2 := UInt32.toNat_div ..
  refine ⟨hready, fun hagain => ?_, fun hend => ?_⟩
  · have hne : rest / 2 ≠ 0 := by
      rw [hflags] at hagain
      simpa using hagain
    cases left with
    | zero =>
      refine absurd (UInt32.toNat_inj.mp ?_) hne
      rw [hhalf]
      exact Nat.div_eq_of_lt hrest
    | succ left =>
      refine ⟨left, Nat.lt_succ_self left, w', rest / 2, by omega, by omega, fun j hj => ?_, hx,
        htime, ?_⟩
      · rw [hhalf, Nat.testBit_div_two, ← hbits j (by omega), Nat.succ_sub hj]
      · rw [placeAfter_turnOf _ (by omega)] at hview
        exact hview
  · have hzero : rest / 2 = 0 := by
      rw [hflags] at hend
      simpa using hend
    have hnone : (turnsLeft move.descending left).filter p = [] := by
      refine List.filter_eq_nil_iff.mpr fun reg hreg hp => ?_
      obtain ⟨j, hj, rfl⟩ := List.mem_map.mp hreg
      rw [List.mem_reverse, List.mem_range] at hj
      rw [← hbits j (by omega), show left - j = left - j - 1 + 1 by omega, ← Nat.testBit_div_two,
        ← hhalf, hzero] at hp
      simp at hp
    rw [hnone] at hx
    refine ⟨w', hx.symm, A.time_le left htime, fun a ha => ?_⟩
    exact hview.weaken (τ := w'.view fun _ => none) rfl (fun s v hs => by
      cases s <;> first | exact hs | cases hs) a (.inl ha)

theorem testBit_reverse {n : Nat} (hn : n < 16) :
    (Word.reverse mask).toNat.testBit n = mask.toNat.testBit (15 - n) := by
  have hfold (l : List Nat) (acc : UInt16) (hl : ∀ k ∈ l, k < 16) :
      (l.foldl (fun acc n => if mask.toNat.testBit n then
        acc ||| ((1 : UInt16) <<< (15 - n).toUInt16) else acc) acc).toNat.testBit n =
        (acc.toNat.testBit n || l.any fun k => mask.toNat.testBit k && decide (15 - k = n)) := by
    induction l generalizing acc with
    | nil => simp
    | cons k l ih =>
      rw [List.foldl_cons, ih _ fun j hj => hl j (List.mem_cons_of_mem _ hj), List.any_cons]
      have hk := hl k List.mem_cons_self
      have hshift : ((1 : UInt16) <<< (15 - k).toUInt16).toNat = 2 ^ (15 - k) := by
        have hall : ∀ k : Fin 16, ((1 : UInt16) <<< (15 - k.val).toUInt16).toNat = 2 ^ (15 - k.val) := by
          decide
        exact hall ⟨k, hk⟩
      split
      · rename_i hbit
        rw [UInt16.toNat_or, Nat.testBit_or, hshift, Nat.testBit_two_pow, hbit, Bool.true_and,
          Bool.or_assoc]
      · rename_i hbit
        rw [Bool.eq_false_iff.mpr hbit, Bool.false_and, Bool.false_or]
  rw [Word.reverse, hfold _ _ fun k hk => List.mem_range.mp hk]
  rw [show (0 : UInt16).toNat = 0 from rfl, Nat.zero_testBit, Bool.false_or]
  refine Bool.eq_iff_iff.mpr ⟨fun h => ?_, fun h => ?_⟩
  · obtain ⟨k, hk, hbit⟩ := List.any_eq_true.mp h
    rw [Bool.and_eq_true, decide_eq_true_iff] at hbit
    rw [List.mem_range] at hk
    rw [show 15 - n = k by omega]
    exact hbit.1
  · refine List.any_eq_true.mpr ⟨15 - n, List.mem_range.mpr (by omega), ?_⟩
    rw [h, Bool.true_and, decide_eq_true_iff]
    omega

theorem transferLoop_follows :
    Follows A (i + 16) (w.plain config)
      (transferLoop config move mask) i (move.all config w (listed move.descending mask)) (Walk.plain config) := by
  have horder : transferOrder move.descending = turnsLeft move.descending 16 := by
    cases move.descending <;> rfl
  generalize hbits : (if move.descending then Word.reverse mask else mask) = bits
  have hpicked (j : Nat) (hj : j ≤ 15) : bits.toUInt32.toNat.testBit (15 - j) =
      mask.toNat.testBit (turnOf move.descending j).val := by
    rw [← hbits, UInt16.toNat_toUInt32]
    cases move.descending with
    | true =>
      rw [if_pos rfl, testBit_reverse _ (by omega), Nat.sub_sub_self hj]
      exact congrArg mask.toNat.testBit (Nat.mod_eq_of_lt (by omega)).symm
    | false => exact congrArg mask.toNat.testBit (Nat.mod_eq_of_lt (by omega)).symm
  have hload : Leads A ((w.view fun _ => none).On config.Settles) (load bits.toUInt32 temp)
      (((w.view fun _ => none).set bits.toUInt32 (.scratch .temp)).On config.Settles) :=
    .mov (s := .const _) (d := .scratch .temp) (fun _ _ => rfl) rfl (fun _ _ => rfl) (by decide) rfl
  have hpoint (σ : View) : Leads A (σ.On config.Settles) (lea context (Int32.ofNat
      (if move.descending then generalOffset 15 else 0)) scratch4)
      ((σ.set (placeOf (turnOf move.descending 15)) (.scratch .fourth)).On config.Settles) := by
    refine .op rfl (Op.spares_of_writes rfl (by decide))
      fun m m' memory hready hview hperform a ha => ?_
    have hset := (hview a ha).setReg (t := .fourth) (by decide)
      (placeOf (turnOf move.descending 15))
    rw [Machine.setReg, Alike.merge_long] at hset
    rw [← Except.ok.inj hperform, hready.context, UInt32.zero_add]
    cases hdescending : move.descending <;> rw [hdescending] at hset <;> exact hset
  have hloop := turns_follow (A := A) (i := i) move w bits.toUInt32
    (p := fun reg => mask.toNat.testBit reg.val) bits.toNat_lt hpicked
  simp only [transferLoop, hbits, listed, horder]
  refine .after ((spillMapped_leads.append hload).append (hpoint _)) (hloop.weaken
    fun m memory hview => hview.weaken rfl fun s v hs => ?_)
  cases s <;> exact hs

/-- A list goes through memory in one way, however the code for it looks. A load reads one more
word. -/
def Codegen.ListMove.whole (move : ListMove) (config : Config) (w : Walk) (mask : UInt16) :
    Except OddAccess Walk := do
  let w ← move.all config w (listed move.descending mask)
  if move.toMemory then return w
  else do
    let (_, g) ← w.guest.load config .word w.address
    return ⟨g, w.address⟩

theorem transferList_follows (inline : Bool) :
    Follows A (i + 17) (w.plain config)
      ((if inline then transferStraight config move mask else transferLoop config move mask) ++
        if move.toMemory then []
        else mov (.reg scratch2) (.reg scratch1) .long ++ callRead .word) i
      (move.whole config w mask) (Walk.plain config) := by
  have hlist : Follows A (i + 1 + 16) (w.plain config)
      (if inline then transferStraight config move mask else transferLoop config move mask) (i + 1)
      (move.all config w (listed move.descending mask)) (Walk.plain config) := by
    split
    · have hfew : (listed move.descending mask).length ≤ 16 :=
        Nat.le_trans (List.length_filter_le _ _) (by cases move.descending <;> decide)
      have hstraight := (transferStraight_follows (A := A) (i := i + 1) move w
        (listed move.descending mask)).sooner (16 - (listed move.descending mask).length)
      rwa [Nat.add_assoc (i + 1), Nat.add_sub_cancel' hfew] at hstraight
    · exact transferLoop_follows move w mask
  refine hlist.bind fun w' _ => ?_
  cases move.toMemory with
  | true => exact (Follows.done (V := Walk.plain config) .nil).sooner 1
  | false =>
    refine (Follows.after (.mov (s := .scratch .second) (d := .scratch .first) (fun _ _ => rfl) rfl
      (fun _ _ => rfl) (by decide) rfl) (.read (fun _ => .inl) rfl rfl)).map
        fun r m memory _ hview => hview.weaken rfl fun s v hs => ?_
    cases s <;> first | exact hs | cases hs

end

namespace Codegen.ListMove

variable {move : ListMove} (hsize : move.size ≠ .byte) (config : Config) (w : Walk) (reg : Fin 16)
include hsize

theorem stride_even : move.size.bytes.toUInt32 &&& 1 = 0 := by
  cases hmove : move.size with
  | byte => exact absurd hmove hsize
  | _ => decide

theorem one_even (h : w.address &&& 1 = 0) :
    ∃ w', move.one config w reg = .ok w' ∧ w'.address &&& 1 = 0 := by
  have hforth := add_even h (stride_even hsize)
  have hback := sub_even h (stride_even hsize)
  simp only [one, Guest.store_even _ _ h, Guest.store_even _ _ hback, Guest.load_even _ _ h]
  split
  · split
    · exact ⟨_, rfl, hback⟩
    · exact ⟨_, rfl, hforth⟩
  · exact ⟨_, rfl, hforth⟩

theorem all_even (regs : List (Fin 16)) (h : w.address &&& 1 = 0) :
    ∃ w', move.all config w regs = .ok w' ∧ w'.address &&& 1 = 0 := by
  induction regs generalizing w with
  | nil => exact ⟨w, rfl, h⟩
  | cons reg rest ih =>
    obtain ⟨w', hone, heven⟩ := one_even hsize config w reg h
    rw [all, List.foldlM_cons, hone]
    exact ih w' heven

theorem one_odd (h : w.address &&& 1 ≠ 0) :
    ∃ e : OddAccess, move.one config w reg = .error e ∧ e.guest = w.guest := by
  have hback : (w.address - move.size.bytes.toUInt32) &&& 1 ≠ 0 := fun heven => h (by
    rw [← UInt32.sub_add_cancel w.address move.size.bytes.toUInt32]
    exact add_even heven (stride_even hsize))
  simp only [one, Guest.store_odd _ _ hsize h, Guest.store_odd _ _ hsize hback,
    Guest.load_odd _ _ hsize h]
  split
  · split <;> exact ⟨_, rfl, rfl⟩
  · exact ⟨_, rfl, rfl⟩

/-- An access that fails is the first of all. -/
theorem guest_of_whole {w : Walk} {mask : UInt16} {e : OddAccess}
    (h : move.whole config w mask = .error e) : e.guest = w.guest := by
  have hrest {w' : Walk} (hall : move.all config w (listed move.descending mask) = .ok w') :
      w'.guest.load config .word w'.address = .error e := by
    rw [whole, hall] at h
    cases hto : move.toMemory <;> rw [hto] at h
    · change (w'.guest.load config .word w'.address >>= fun r => _) = _ at h
      cases hload : w'.guest.load config .word w'.address with
      | error =>
        rw [hload] at h
        cases h
        rfl
      | ok =>
        rw [hload] at h
        cases h
    · cases h
  by_cases heven : w.address &&& 1 = 0
  · obtain ⟨w', hall, heven'⟩ := all_even hsize config w (listed move.descending mask) heven
    cases (Guest.load_even _ _ heven').symm.trans (hrest hall)
  · cases hlist : listed move.descending mask with
    | nil =>
      rw [hlist] at hrest
      cases (Guest.load_odd _ _ (by decide) heven).symm.trans (hrest rfl)
      rfl
    | cons reg rest =>
      obtain ⟨e', hone, hguest⟩ := one_odd hsize config w reg heven
      rw [whole, hlist, all, List.foldlM_cons, hone] at h
      cases h
      exact hguest

end Codegen.ListMove

end Dynarec68k
