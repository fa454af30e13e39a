import Dynarec68k.Proofs.BuiltCode

namespace Dynarec68k.Built

open Host Codegen Role RegisterFile

variable {operand : Operand} {f : RegisterAssignment → Place → Fragment} {s : Spot}

variable {config : Config} {inst : Instruction} {u : Bool} {g : Grade} {p : Account}
  {q : Progress} (c : RegisterAssignment) (flag : Flag) (pcBase : UInt32) (n : Fin 16) {size : Size}

theorem flag_readable : (Spot.field (flagOffset flag)).Readable g .byte :=
  (Spot.Storable.flag (u := false) (q := .loose) flag).writable.readable

theorem scratch_readable {s : Scratch} {z : Size} (h : s ≠ .first) :
    (Spot.scratch s).Readable g z :=
  fun hs => absurd hs h

theorem setFlag (value : Bool) : Keeps config inst u ⟨g, p, q⟩ fun _ => setFlag flag value :=
  mov (s := .const value.toUInt32) (d := .field (flagOffset flag)) trivial
    (.flag flag) fun h => by cases h

theorem testInto (t : Test) (flag : Flag) :
    Keeps config inst u ⟨g, p, q⟩ fun _ => Codegen.setTest t (flagPlace flag) :=
  setTest (d := .field (flagOffset flag)) (.flag flag)

theorem setFlags (updates : FlagUpdates) :
    Keeps config inst u ⟨g, p, q⟩ fun _ => setFlags updates := by
  have hcapture (flag : Flag) :
      Keeps config inst u ⟨g, p, q⟩ fun _ => captureFlag updates flag := by
    unfold captureFlag
    split
    · exact testInto _ flag
    · exact nil
  have hassign (flag : Flag) :
      Keeps config inst u ⟨g, p, q⟩ fun _ => assignFlag updates flag := by
    unfold assignFlag
    split
    · exact setFlag flag _
    · exact nil
  exact (flatMap fun flag _ => hcapture flag).append (flatMap fun flag _ => hassign flag)

theorem compareZero (hs : s.Readable g size) (updates : FlagUpdates) :
    Keeps config inst u ⟨g, p, q⟩ fun a => Codegen.alu .cmp (.imm 0) (s.place a) size ++ Codegen.setFlags updates :=
  (compare (s := .const 0) rfl trivial hs).append (setFlags _)

theorem testFlags (hs : s.Readable g size) :
    Keeps config inst u ⟨g, p, q⟩ fun a => testFlags (s.place a) size := by
  cases s with
  | const value => exact setFlags _
  | scratch s => exact compareZero (s := .scratch s) hs _
  | field offset => exact compareZero (s := .field offset) hs _
  | guest n =>
    have hplace (c : RegisterAssignment) : testFlags (c.place n) size =
        Codegen.alu .cmp (.imm 0) (c.place n) size ++ Codegen.setFlags FlagUpdates.logic := by
      cases hlookup : c.mapped.lookup n.val with
      | some host => simp only [c.place_of_lookup hlookup, testFlags]
      | none => simp only [c.place_of_lookup_none hlookup, testFlags]
    simp only [Spot.place, hplace]
    exact compareZero (s := .guest n) trivial _

theorem clearZ : Keeps config inst u ⟨g, p, q⟩ fun _ => clearZ :=
  skipIf (setFlag .z false)

theorem loadExtend : Keeps config inst u ⟨g, p, q⟩ fun _ => loadExtend :=
  bitTest (s := .const 0) (d := .field (flagOffset .x)) trivial (flag_readable .x)

theorem compareFlag : Keeps config inst u ⟨g, p, q⟩ fun _ => compareFlag flag :=
  compare (s := .const 0) (d := .field (flagOffset flag)) rfl trivial
    (flag_readable flag)

theorem evaluate (condition : Condition) :
    Keeps config inst u ⟨g, p, q⟩ fun _ => evaluate condition := by
  have hload (flag : Flag) : Keeps config inst u ⟨g, p, q⟩ fun _ => Codegen.movzx (flagPlace flag) temp .byte .long :=
    movzx (s := .field (flagOffset flag)) (d := .temp) (flag_readable flag) (by decide)
  have hjoin (o : Alu) (flag : Flag) : Keeps config inst u ⟨g, p, q⟩ fun _ => Codegen.alu o (flagPlace flag) (.reg temp) .byte :=
    aluScratch o (s := .field (flagOffset flag)) (d := .temp) (flag_readable flag)
      (fun h => by cases h) (by decide)
  have hsame : Keeps config inst u ⟨g, p, q⟩ fun _ => Codegen.alu .cmp (.reg temp) (.reg temp) .long :=
    compare (s := .scratch .temp) (d := .scratch .temp) rfl (scratch_readable (by decide))
      (scratch_readable (by decide))
  have hsign := (hload .n).append (hjoin .xor .v)
  cases condition with
  | always | never => exact hsame
  | high | lowSame => exact (hload .c).append (hjoin .or .z)
  | carryClear | carrySet => exact compareFlag .c
  | notEqual | equal => exact compareFlag .z
  | overflowClear | overflowSet => exact compareFlag .v
  | plus | minus => exact compareFlag .n
  | greaterEqual | less => exact hsign
  | greater | lessEqual => exact hsign.append (hjoin .or .z)

theorem shiftFirst (o : Shift) (k : Nat) :
    Keeps config inst u ⟨.tight, p, q⟩ fun _ => Codegen.shiftBy o k (.reg scratch1) .long :=
  shiftBy (d := .scratch .first) (fun _ => rfl) (.scratch (by decide))

theorem packFlags :
    Keeps config inst u ⟨.tight, p, q⟩ fun _ => packFlags scratch1 :=
  flatMap (n := 0) fun flag _ => (shiftFirst _ _).append
    (aluScratch _ (s := .field (flagOffset flag)) (d := .first) (flag_readable flag)
      (fun _ => rfl) (by decide))

theorem ccrInto :
    Built config inst u ⟨.loose, p, q⟩ 0 (fun _ => ccrInto scratch1) ⟨.tight, p, q⟩ :=
  (loadFirst 0).append packFlags

theorem status_readable : (Spot.field statusOffset).Readable g .byte :=
  ⟨by decide, by decide⟩

theorem srInto :
    Built config inst u ⟨.loose, p, q⟩ 0 (fun _ => srInto scratch1) ⟨.tight, p, q⟩ :=
  ((movzxFirst (s := .field statusOffset) status_readable).append
    (shiftFirst _ _)).append packFlags

theorem ccrFrom :
    Keeps config inst u ⟨.tight, p, q⟩ fun _ => ccrFrom scratch1 :=
  flatMap (n := 0) fun entry _ =>
    (bitTest (s := .const entry.1.toUInt32) (d := .scratch .first) trivial fun _ => rfl).append
      (testInto _ entry.2)

theorem raise (vector : Nat) (pc : UInt32) :
    Built config inst u ⟨.loose, p, q⟩ 0 (fun _ => raise vector pc) .stop :=
  ((loadFirst pc).append (load _ (d := .second) (by decide))).append
    (.leave rfl (fun _ => rfl) (fun _ => rfl) (.inl rfl) (by decide))

theorem pushLong :
    Built config inst u ⟨.tight, p, .intact⟩ 8 (fun a => pushLong (config.assign a))
      ⟨.tight, p, .loose⟩ :=
  ((aluAddr .sub 4 7).append (copy (s := .addr 7) (d := .second) trivial (by decide))).append
    (.write false (.inr rfl))

theorem popLong :
    Built config inst u ⟨.loose, p, .intact⟩ 8 (fun a => popLong (config.assign a))
      ⟨.tight, p, .intact⟩ :=
  ((copyFirst (s := .addr 7) trivial).append (aluAddr .add 4 7)).append (.read (.inr rfl))

section Addresses

variable {d : Scratch} (disp : Int32) (pcBase : UInt32)

theorem addDisplacement (hd : d = .first → g = .tight) (hclock : d ≠ .cycles) :
    Keeps config inst u ⟨g, p, q⟩ fun _ => addDisplacement disp d.reg :=
  ite (fun _ => nil) fun _ => aluScratch _ (s := .const disp.toUInt32) trivial hd hclock

theorem addIndex (index : IndexReg) (hd : d = .first → g = .tight) (hclock : d ≠ .cycles) :
    Keeps config inst u ⟨g, p, q⟩ fun a => addIndex (config.assign a) index d.reg := by
  have hscale : Keeps config inst u ⟨g, p, q⟩ fun _ => scaleIndex index.shift :=
    ite (fun _ => nil) fun _ =>
      shiftBy (d := .scratch .temp) (scratch_readable (by decide)) (.scratch (by decide))
  refine append (append (ite (fun _ => ?_) fun _ => ?_) hscale)
    (aluScratch _ (s := .scratch .temp) (scratch_readable (by decide)) hd hclock)
  · exact copy (s := .guest index.reg) (d := .temp) trivial (by decide)
  · exact movsx (s := .guest index.reg) (d := .temp) trivial (by decide)

theorem addIndex? (index : Option IndexReg) :
    Keeps config inst u ⟨.tight, p, q⟩ fun a => addIndex? (config.assign a) index scratch1 := by
  cases index with
  | none => exact nil
  | some index => exact addIndex index (d := .first) (fun _ => rfl) (by decide)

theorem displaceFirst :
    Keeps config inst u ⟨.tight, p, q⟩ fun _ => Codegen.addDisplacement disp scratch1 :=
  addDisplacement disp (d := .first) (fun _ => rfl) (by decide)

theorem fullAddress (base : Spot) (hbase : base.Readable .loose .long) (full : FullIndex)
    (hclock : d ≠ .cycles) :
    Built config inst u ⟨.loose, p, .intact⟩ 8
      (fun a => fullAddress (config.assign a) (base.place a) full d.reg) ⟨.tight, p, .intact⟩ := by
  have hstart : Built config inst u ⟨.loose, p, .intact⟩ 0 (fun a => Codegen.mov
      (if full.baseSuppressed then .imm 0 else base.place a) (.reg scratch1) .long)
      ⟨.tight, p, .intact⟩ := by
    cases full.baseSuppressed with
    | true => exact loadFirst 0
    | false => exact copyFirst hbase
  have hfinish : Keeps config inst u ⟨.tight, p, .intact⟩ fun _ => if d.reg = scratch1 then []
      else Codegen.mov (.reg scratch1) (.reg d.reg) .long := by
    refine ite (fun _ => nil) fun hne => ?_
    refine copy (s := .scratch .first) (fun _ => rfl) ⟨hclock, ?_⟩
    rintro rfl
    exact hne rfl
  have hread : Built config inst u ⟨.tight, p, .intact⟩ 8 (fun _ => callRead .long)
      ⟨.tight, p, .intact⟩ := .read (.inr rfl)
  obtain ⟨suppressed, index, disp, memory⟩ := full
  cases memory with
  | none =>
    exact (((hstart.append (displaceFirst _)).append (addIndex? index)).append hfinish).mono
      (by decide)
  | preIndexed outer =>
    exact ((hstart.append (displaceFirst _)).append
      (((addIndex? index).append hread).append (displaceFirst _))).append hfinish
  | postIndexed outer =>
    exact ((hstart.append (displaceFirst _)).append
      ((hread.append (addIndex? index)).append (displaceFirst _))).append hfinish

theorem addressFirst (hmemory : operand.isMemory = true) (size : Size) :
    Built config inst u ⟨.loose, p, .intact⟩ 8
      (fun a => addressInto (config.assign a) pcBase operand size scratch1)
      ⟨.tight, p, .intact⟩ := by
  have hindex (index : IndexReg) : Keeps config inst u ⟨.tight, p, .intact⟩ fun a => Codegen.addIndex (config.assign a) index scratch1 :=
    addIndex index (d := .first) (fun _ => rfl) (by decide)
  have hmov (reg : Fin 8) : Built config inst u ⟨.loose, p, .intact⟩ 0
      (fun a => Codegen.mov ((config.assign a).addrPlace reg) (.reg scratch1) .long)
      ⟨.tight, p, .intact⟩ := copyFirst (s := .addr reg) trivial
  cases operand with
  | indirect reg => exact (hmov reg).mono (by decide)
  | postInc reg => exact ((hmov reg).append (aluAddr _ _ reg)).mono (by decide)
  | preDec reg => exact ((aluAddr _ _ reg).append (hmov reg)).mono (by decide)
  | displaced reg disp => exact ((hmov reg).append (displaceFirst _)).mono (by decide)
  | indexed reg index disp =>
    exact (((hmov reg).append (hindex index)).append (displaceFirst _)).mono (by decide)
  | full reg full => exact fullAddress (.addr reg) trivial full (d := .first) (by decide)
  | absShort address | absLong address => exact (loadFirst address).mono (by decide)
  | pcDisplaced disp => exact (loadFirst _).mono (by decide)
  | pcIndexed index disp => exact ((loadFirst _).append (hindex index)).mono (by decide)
  | pcFull full => exact fullAddress (.const pcBase) trivial full (d := .first) (by decide)
  | _ => exact absurd hmemory (by simp [Operand.isMemory])

theorem addressInto (operand : Operand) (size : Size) (hd : d ≠ .cycles ∧ d ≠ .first) :
    Built config inst u ⟨.loose, p, .intact⟩ 8
      (fun a => addressInto (config.assign a) pcBase operand size d.reg) ⟨.loose, p, .intact⟩ := by
  have hmov (reg : Fin 8) : Keeps config inst u ⟨.loose, p, .intact⟩ fun a => Codegen.mov ((config.assign a).addrPlace reg) (.reg d.reg) .long := copy (s := .addr reg) trivial hd
  have hdisp (disp : Int32) : Keeps config inst u ⟨.loose, p, .intact⟩ fun _ => Codegen.addDisplacement disp d.reg :=
    addDisplacement disp (fun h => absurd h hd.2) hd.1
  have hindex (index : IndexReg) : Keeps config inst u ⟨.loose, p, .intact⟩ fun a => Codegen.addIndex (config.assign a) index d.reg :=
    addIndex index (fun h => absurd h hd.2) hd.1
  cases operand with
  | indirect reg => exact (hmov reg).mono (by decide)
  | postInc reg => exact ((hmov reg).append (aluAddr _ _ reg)).mono (by decide)
  | preDec reg => exact ((aluAddr _ _ reg).append (hmov reg)).mono (by decide)
  | displaced reg disp => exact ((hmov reg).append (hdisp _)).mono (by decide)
  | indexed reg index disp =>
    exact (((hmov reg).append (hindex index)).append (hdisp _)).mono (by decide)
  | full reg full => exact (fullAddress (.addr reg) trivial full hd.1).relax
  | absShort address | absLong address => exact (load address hd).mono (by decide)
  | pcDisplaced disp => exact (load _ hd).mono (by decide)
  | pcIndexed index disp => exact ((load _ hd).append (hindex index)).mono (by decide)
  | pcFull full => exact (fullAddress (.const pcBase) trivial full hd.1).relax
  | _ => exact nil.mono (by decide)

end Addresses

/-- What `sourcePlace` stands for. -/
def sourceSpot (operand : Operand) (size : Size) : Spot :=
  match operand with
  | .data reg => .data reg
  | .addr reg => .addr reg
  | .immediate value => .const (value &&& size.mask)
  | _ => .scratch .third

theorem sourcePlace_eq (operand : Operand) (size : Size) :
    sourcePlace (config.assign c) operand size = (sourceSpot operand size).place c := by
  cases operand <;> rfl

theorem source_readable (operand : Operand) (size size' : Size) :
    (sourceSpot operand size).Readable g size' := by
  cases operand <;> first | trivial | exact scratch_readable (by decide)

theorem sourceSpot_ne_field (operand : Operand) (size : Size) (offset : Nat) :
    sourceSpot operand size ≠ .field offset := by
  cases operand <;> exact fun h => by cases h

theorem fetchSource (hvalue : operand.isValue = true) (size : Size) :
    Built config inst u ⟨.loose, p, .intact⟩ 16
      (fun a => fetchSource (config.assign a) pcBase operand size) ⟨.loose, p, .intact⟩ := by
  have hread (hmemory : operand.isMemory = true) : Built config inst u ⟨.loose, p, .intact⟩ 16
      (fun a => Codegen.addressInto (config.assign a) pcBase operand size scratch1 ++
        callRead size ++ Codegen.mov (.reg scratch1) (.reg scratch3) .long)
      ⟨.loose, p, .intact⟩ :=
    (((addressFirst pcBase hmemory size).append (.read (.inr rfl))).append
      (copy (s := .scratch .first) (d := .third) (fun _ => rfl) (by decide))).relax
  cases operand with
  | data | addr | immediate => exact nil.mono (by decide)
  | none | regList | displacement | regPair | usp | ccr | sr | control | bitField => cases hvalue
  | _ => exact hread rfl

theorem place_cases (hs : ∀ v, s ≠ .const v) (c : RegisterAssignment) :
    (∃ r, s.place c = .reg r) ∨ ∃ base disp, s.place c = .slot base disp := by
  cases s with
  | guest n =>
    cases hlookup : c.mapped.lookup n.val with
    | some host => exact .inl ⟨host, c.place_of_lookup hlookup⟩
    | none => exact .inr ⟨_, _, c.place_of_lookup_none hlookup⟩
  | scratch s => exact .inl ⟨_, rfl⟩
  | field offset => exact .inr ⟨_, _, rfl⟩
  | const v => exact absurd rfl (hs v)

theorem fetchSourceLong (hvalue : operand.isValue = true) (size : Size)
    (hf : ∀ (g : Grade) (s : Spot), s.Readable g .long →
      Keeps config inst u ⟨g, p, .intact⟩ fun a => f a (s.place a)) :
    Built config inst u ⟨.loose, p, .intact⟩ 16
      (fun a => fetchSourceLong (config.assign a) pcBase operand size ++
        f a (sourceLongPlace (config.assign a) operand size)) ⟨.loose, p, .intact⟩ := by
  have hfetch : Built config inst u ⟨.loose, p, .intact⟩ 16 _ ⟨.loose, p, .intact⟩ :=
    fetchSource pcBase hvalue size
  have hread := source_readable (g := .loose) operand size
  -- Longs and constants are used where they are, other sources are widened.
  by_cases hlong : size = .long
  · subst hlong
    simp only [Codegen.fetchSourceLong, sourceLongPlace, sourcePlace_eq, List.append_nil]
    exact hfetch.append (hf _ _ (hread _))
  · by_cases hconst : ∃ v, sourceSpot operand size = .const v
    · obtain ⟨v, hv⟩ := hconst
      have hplace (c : RegisterAssignment) :
          Codegen.fetchSourceLong (config.assign c) pcBase operand size =
              Codegen.fetchSource (config.assign c) pcBase operand size ∧
            sourceLongPlace (config.assign c) operand size = .imm (size.signExtend v) := by
        simp only [Codegen.fetchSourceLong, sourceLongPlace, sourcePlace_eq, hv, Spot.place]
        cases size with
        | long => exact absurd rfl hlong
        | _ => exact ⟨List.append_nil _, trivial⟩
      simp only [hplace]
      exact hfetch.append (hf _ (.const (size.signExtend v)) trivial)
    · have hplace (c : RegisterAssignment) :
          Codegen.fetchSourceLong (config.assign c) pcBase operand size =
              Codegen.fetchSource (config.assign c) pcBase operand size ++
                Codegen.movsx ((sourceSpot operand size).place c) scratch1 size .long ∧
            sourceLongPlace (config.assign c) operand size = .reg scratch1 := by
        simp only [Codegen.fetchSourceLong, sourceLongPlace, sourcePlace_eq]
        rcases place_cases (not_exists.mp hconst) c with ⟨r, hr⟩ | ⟨base, disp, hr⟩ <;> rw [hr] <;>
          cases size with
          | long => exact absurd rfl hlong
          | _ => exact ⟨rfl, rfl⟩
      simp only [hplace]
      exact ((hfetch.append (movsxFirst (hread size) (by decide))).append
        (hf _ (.scratch .first) fun _ => rfl)).relax

/-- The spot of a destination that is used where it is. -/
def destSpot? (operand : Operand) (size : Size) : Option Spot :=
  match operand with
  | .data reg => some (.data reg)
  | .addr reg => some (.addr reg)
  | .immediate value => some (.const (value &&& size.mask))
  | _ => none

theorem destOf_eq (operand : Operand) (size : Size) :
    destOf (config.assign c) operand size =
      match destSpot? operand size with
      | some s => .place (s.place c)
      | none => .memory operand.isPreDec := by
  cases operand <;> rfl

theorem destSpot?_guest (himm : operand.isImmediate = false)
    (hs : destSpot? operand size = some s) :
    ∃ n, s = .guest n := by
  cases operand with
  | data reg => exact ⟨_, (Option.some.inj hs).symm⟩
  | addr reg => exact ⟨_, (Option.some.inj hs).symm⟩
  | immediate => cases himm
  | _ => cases hs

theorem destSpot?_readable {size' : Size} (hs : destSpot? operand size = some s) :
    s.Readable g size' := by
  cases operand with
  | data | addr | immediate => exact Option.some.inj hs ▸ trivial
  | _ => cases hs

theorem locateDest (operand : Operand) (size : Size) :
    Built config inst u ⟨.loose, p, .intact⟩ 8
      (fun a => locateDest (config.assign a) pcBase operand size) ⟨.loose, p, .intact⟩ :=
  addressInto pcBase operand size (d := .second) (by decide)

theorem readMemory (lowFirst : Bool) (size : Size) :
    Built config inst u ⟨.loose, p, .intact⟩ 8 (fun _ => readDest (.memory lowFirst) size)
      ⟨.tight, p, .intact⟩ :=
  (copyFirst (s := .scratch .second) (scratch_readable (by decide))).append (.read (.inr rfl))

theorem place_guest_injective {n n' : Fin 16} (heq : c.place n = c.place n') : n = n' := by
  cases c <;> revert n n' <;> decide

theorem place_guest_ne (s : Scratch) : c.place n ≠ .reg s.reg := by
  intro heq
  cases hlookup : c.mapped.lookup n.val with
  | some host =>
    rw [c.place_of_lookup hlookup, Place.reg.injEq] at heq
    obtain ⟨-, hlow, hhigh, -⟩ := RegisterAssignment.lookup_mapped hlookup
    have hnumber := s.reg_number.2.2
    rw [← heq] at hnumber
    omega
  | none =>
    rw [c.place_of_lookup_none hlookup] at heq
    cases heq

theorem place_guest_eq_iff (hs : ∀ offset, s ≠ .field offset) :
    c.place n = s.place c ↔ s = .guest n := by
  constructor
  · intro heq
    cases s with
    | guest n' => rw [place_guest_injective c heq]
    | field offset => exact absurd rfl (hs offset)
    | const value =>
      rcases place_cases (s := .guest n) (fun _ h => by cases h) c with ⟨r, hr⟩ | ⟨base, disp, hr⟩
      · cases hr.symm.trans heq
      · cases hr.symm.trans heq
    | scratch s => exact absurd heq (place_guest_ne c n s)
  · rintro rfl
    rfl

theorem writeDest (himm : operand.isImmediate = false) (size : Size) (hs : ∀ z, s.Readable .loose z)
    (hfield : ∀ offset, s ≠ .field offset) :
    Built config inst u ⟨.loose, p, .intact⟩ 8
      (fun a => writeDest (destOf (config.assign a) operand size) (s.place a) size)
      ⟨.loose, p, .loose⟩ := by
  simp only [destOf_eq]
  cases hdest : destSpot? operand size with
  | some d =>
    obtain ⟨n, rfl⟩ := destSpot?_guest himm hdest
    have hsame (a : RegisterAssignment) : Codegen.writeDest (.place ((Spot.guest n).place a))
        (s.place a) size = if s = .guest n then [] else Codegen.mov (s.place a) (a.place n) size :=
      if_congr (place_guest_eq_iff a n hfield) rfl rfl
    simp only [hsame]
    exact (ite (fun _ => nil) fun _ => put n (hs size) (.guest n)).anywhere.mono (by decide)
  | none =>
    have hfirst (a : RegisterAssignment) : s.place a ≠ .reg scratch1 := by
      intro heq
      cases s with
      | scratch s =>
        have hfirst : s = .first := Scratch.reg_injective (t := .first) (Place.reg.inj heq)
        exact absurd (hs .long hfirst) (by decide)
      | guest n => exact place_guest_ne a n .first heq
      | field offset => exact hfield offset rfl
      | const value => cases heq
    simp only [Codegen.writeDest, if_neg (hfirst _)]
    exact ((copyFirst (hs .long)).append (.write _ (.inr rfl))).relax

theorem writeFirst (himm : operand.isImmediate = false) (size : Size) :
    Built config inst u ⟨.tight, p, .intact⟩ 8 (fun a => Codegen.writeDest
      (destOf (config.assign a) operand size) (.reg scratch1) size) ⟨.tight, p, .loose⟩ := by
  simp only [destOf_eq]
  cases hdest : destSpot? operand size with
  | some d =>
    obtain ⟨n, rfl⟩ := destSpot?_guest himm hdest
    have hput (a : RegisterAssignment) : Codegen.writeDest (.place ((Spot.guest n).place a))
        (.reg scratch1) size = Codegen.mov (.reg scratch1) (a.place n) size :=
      if_neg (place_guest_ne a n .first)
    simp only [hput]
    exact (put (s := .scratch .first) n (fun _ => rfl) (.guest n)).anywhere.mono (by decide)
  | none => exact nil.append (.write _ (.inr rfl))

/-- Change a destination by the code `f`, which works on its value where `readDest` left it: in
memory in a scratch register, in registers in place. -/
theorem modify (himm : inst.dst.isImmediate = false) (size : Size)
    (hf : ∀ (g : Grade) (q : Progress) (s : Spot), s.Readable g size → s.Storable u q size →
      Keeps config inst u ⟨g, p, q⟩ fun a => f a (s.place a)) :
    Built config inst u ⟨.loose, p, .intact⟩ 24
      (fun a => modify (config.assign a) inst size (f a)) ⟨.loose, p, .loose⟩ := by
  simp only [Codegen.modify, destOf_eq]
  cases hdest : destSpot? inst.dst size with
  | some d =>
    obtain ⟨n, rfl⟩ := destSpot?_guest himm hdest
    simp only [Codegen.readDest, Dest.value, Codegen.writeDest, if_true, List.append_nil]
    exact ((locateDest _ _ _).append
      (hf .loose .loose (.guest n) trivial (.guest n)).anywhere).mono (by decide)
  | none =>
    exact ((((locateDest _ _ _).append (readMemory _ size)).append
      (hf .tight .intact (.scratch .first) (fun _ => rfl) (.scratch (by decide)))).append
      (.write _ (.inr rfl))).relax

end Dynarec68k.Built
