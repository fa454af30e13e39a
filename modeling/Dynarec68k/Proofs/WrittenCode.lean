import Dynarec68k.Proofs.CodeOrigins
import Dynarec68k.Proofs.SampleRuns

namespace Dynarec68k

open Host Relation CodeStore

variable {config : Config} {map memory : MemoryMap} {address x : UInt32}

/-- Units are known by canonical addresses, and the regions of compiled instructions are marked where
memory can change. -/
structure Marked (config : Config) (map : MemoryMap) (P : Pair → Prop) (s : CodeStore) : Prop where
  canonical : ∀ p, P p → map.canonical p.unit.address = p.unit.address
  regions : ∀ p, P p → ∀ inst, p.unit = .instruction inst → map.isTracked inst.address = true →
    ∀ r ∈ regionsOf config inst, r ∈ s.regions

namespace Marked

variable {view : GuestView} {P P' : Pair → Prop}
  {s s' : CodeStore} {ok : UInt32 → Prop}

theorem congr (h : Marked config map P s) (hregions : s'.regions = s.regions) :
    Marked config map P s' where
  canonical := h.canonical
  regions := by
    intro p hp inst hunit htracked r hr
    rw [hregions]
    exact h.regions p hp inst hunit htracked r hr

theorem grown {again replaced : Option UInt32} {pairs pairs' : List Pair}
    (h : Marked config map (· ∈ pairs) s) (hfixed : view.Fixed config map)
    (hok : ∀ x, ok x → map.canonical x = x)
    (hgrown : Grown view (view.Fresh ok again) replaced pairs s pairs' s') :
    Marked config map (· ∈ pairs') s' where
  canonical := by
    intro p hp
    rcases hgrown.added p hp with hold | ⟨hfresh, -⟩
    · exact h.canonical p hold
    · exact hok _ hfresh.1
  regions := by
    intro p hp inst hunit htracked r hr
    rcases hgrown.marked p hp with hold | hmarked
    · exact hgrown.marks r (h.regions p hold inst hunit htracked r hr)
    · rw [← hfixed.config] at hr
      exact hmarked inst hunit ((hfixed.shape.isTracked _).trans htracked) r hr

theorem keeps (h : Marked config map P s) (hsole : Sole config map view P s)
    (hok : ∀ x, ok x → map.canonical x = x) (hreworked : Reworked view ok P s P' s') :
    Marked config map P' s' := by
  cases hreworked with
  | redirected _ hredirects => exact h.congr hredirects.regions
  | patched _ _ _ _ hpatched => exact h.congr hpatched.regions
  | grown hpairs hgrown =>
    subst hpairs
    exact h.grown hsole.fixed hok hgrown
  | refreshed hpairs hrefreshed =>
    subst hpairs
    obtain ⟨q, r, -, -, -, hgrown, hmoved⟩ := hrefreshed
    have hmarked := h.grown hsole.fixed hok hgrown
    rcases hmoved with ⟨-, rfl⟩ | ⟨p, -, -, kind, opened, checked, hpatched⟩
    · exact hmarked
    · exact hmarked.congr hpatched.regions

end Marked

/-- Regions stay marked whatever is done to code, in every memory. -/
def Steady.marked (config : Config) {map : MemoryMap} (hsound : map.Sound) :
    Steady config map where
  ok x := map.canonical x = x
  Inv := Marked config map
  stays h := h.stays_canonical
  even _ := hsound.canonical_canonical _
  opened _ _ _ := hsound.canonical_canonical _
  keeps hsole _ h hreworked := h.keeps hsole (fun _ hx => hx) hreworked

theorem Cpu.IsNew.marked {cpu : Cpu} (hnew : cpu.IsNew config memory) {m : Moment}
    {past : List Moment} (hhistory : Moment.History (fun _ => True) (.idle cpu) m past)
    (hfits : m.cpu.Fits) :
    ∃ P, Sole config memory m.cpu.view P m.cpu.store ∧ Marked config memory P m.cpu.store ∧
      (∀ n inst, MadeFrom past n inst →
        ∃ p, P p ∧ n = p.left.toUInt32 ∧ p.unit = .instruction inst) ∧
      ∀ m' ∈ past, m'.cpu.view.Fixed config memory := by
  let U := (Steady.marked config hnew.sound).upkeep
  have hinitial : U.Inv cpu.view (fun _ => False) .initial :=
    ⟨fun _ hp => absurd hp not_false, fun _ hp => absurd hp not_false⟩
  obtain ⟨P, hknown⟩ := hnew.chronicle U hinitial (fun _ _ => trivial) hhistory hfits
  obtain ⟨hsole, hmarked⟩ : Sole config memory m.cpu.view P m.cpu.store ∧
    Marked config memory P m.cpu.store := hknown.tracks.sole
  exact ⟨P, hsole, hmarked, fun _ _ => hknown.made_iff.mp, hknown.fixed⟩

theorem Cpu.IsNew.shift {cpu : Cpu} (h : cpu.IsNew config memory) :
    1 ≤ config.trackingShift.toNat ∧ config.trackingShift.toNat ≤ 16 := by
  have hcreated := h.created
  unfold Cpu.create at hcreated
  split at hcreated
  · exact absurd hcreated nofun
  · rename_i hvalid
    unfold Config.validate at hvalid
    split at hvalid
    · exact absurd hvalid nofun
    · split at hvalid
      · exact absurd hvalid nofun
      · rename_i hshift
        obtain ⟨hlow, hhigh⟩ := not_or.mp hshift
        exact ⟨UInt32.le_iff_toNat_le.mp (UInt32.not_lt.mp hlow),
          UInt32.le_iff_toNat_le.mp (UInt32.not_lt.mp hhigh)⟩

theorem Model.toNat_and_addressMask (model : Model) {x : Nat}
    (hx : x < model.addressMask.toNat + 1) : x &&& model.addressMask.toNat = x := by
  cases model with
  | m68000 => exact (Nat.and_two_pow_sub_one_eq_mod x 24).trans (Nat.mod_eq_of_lt hx)
  | m68010 => exact (Nat.and_two_pow_sub_one_eq_mod x 24).trans (Nat.mod_eq_of_lt hx)
  | m68020 => exact (Nat.and_two_pow_sub_one_eq_mod x 32).trans (Nat.mod_eq_of_lt hx)

namespace CodeStore

variable (hhigh : config.trackingShift.toNat ≤ 16)
include hhigh

theorem toNat_regionOf (hx : x.toNat < config.addressMask.toNat + 1) :
    (regionOf config x).toNat = x.toNat / 2 ^ config.trackingShift.toNat := by
  rw [regionOf, UInt32.toNat_shiftRight, UInt32.toNat_and, Config.addressMask,
    config.model.toNat_and_addressMask hx, Nat.mod_eq_of_lt (by omega), Nat.shiftRight_eq_div_pow]

theorem regionOf_mem {inst : Instruction}
    (hend : inst.address.toNat + inst.length ≤ config.addressMask.toNat + 1)
    (hlow : inst.address.toNat ≤ x.toNat) (hx : x.toNat < inst.address.toNat + inst.length) :
    regionOf config x ∈ regionsOf config inst := by
  have hmask := config.addressMask.toNat_lt
  have hlast : (inst.address + (max inst.length 1 - 1).toUInt32).toNat =
      inst.address.toNat + (inst.length - 1) := by
    rw [Nat.max_eq_left (by omega), UInt32.toNat_add, Nat.toUInt32, UInt32.toNat_ofNat',
      Nat.mod_eq_of_lt (by omega), Nat.mod_eq_of_lt (by omega)]
  have hfirst := toNat_regionOf hhigh (x := inst.address) (by omega)
  have hregion := toNat_regionOf hhigh (x := x) (by omega)
  have hregion' := toNat_regionOf hhigh
    (x := inst.address + (max inst.length 1 - 1).toUInt32) (by omega)
  rw [hlast] at hregion'
  have hbelow : inst.address.toNat / 2 ^ config.trackingShift.toNat ≤
      x.toNat / 2 ^ config.trackingShift.toNat := Nat.div_le_div_right hlow
  have habove : x.toNat / 2 ^ config.trackingShift.toNat ≤
      (inst.address.toNat + (inst.length - 1)) / 2 ^ config.trackingShift.toNat :=
    Nat.div_le_div_right (by omega)
  unfold regionsOf
  dsimp only
  refine List.mem_map.mpr
    ⟨(regionOf config x).toNat - (regionOf config inst.address).toNat, ?_, ?_⟩
  · rw [List.mem_range]
    omega
  · have hbound := (regionOf config x).toNat_lt
    rw [← UInt32.toNat_inj, UInt32.toNat_add, Nat.toUInt32, UInt32.toNat_ofNat',
      Nat.mod_eq_of_lt (by omega), Nat.mod_eq_of_lt (by omega)]
    omega

theorem regionOf_around (hshift : 2 ≤ config.trackingShift.toNat) {y z : UInt32}
    (hx : x.toNat + 2 ≤ config.addressMask.toNat + 1) (heven : x.toNat % 2 = 0)
    (hy : x.toNat = y.toNat + 1) (hz : z.toNat = y.toNat + 3) :
    regionOf config y = regionOf config x ∨ regionOf config z = regionOf config x := by
  have hlong : 4 ∣ config.addressMask.toNat + 1 := by
    rw [Config.addressMask]
    cases config.model <;> decide
  obtain ⟨k, hk⟩ : 4 ∣ 2 ^ config.trackingShift.toNat := Nat.pow_dvd_pow 2 hshift
  have hdivide (a b : Nat) (h : a / 4 = b / 4) :
      a / 2 ^ config.trackingShift.toNat = b / 2 ^ config.trackingShift.toNat := by
    rw [hk, ← Nat.div_div_eq_div_mul, ← Nat.div_div_eq_div_mul, h]
  have hregion := toNat_regionOf hhigh (x := x) (by omega)
  by_cases hedge : x.toNat % 4 = 0
  · refine .inr (UInt32.toNat_inj.mp ?_)
    rw [hregion, toNat_regionOf hhigh (by omega)]
    exact hdivide _ _ (by omega)
  · refine .inl (UInt32.toNat_inj.mp ?_)
    rw [hregion, toNat_regionOf hhigh (by omega)]
    exact hdivide _ _ (by omega)

end CodeStore

theorem Model.is68020_eq_false {model : Model} (h : model ≠ .m68020) : model.is68020 = false := by
  cases model with
  | m68000 => rfl
  | m68010 => rfl
  | m68020 => exact absurd rfl h

theorem Config.narrow {config : Config} (h : config.model.is68020 = false) :
    config.addressMask = 0x00FFFFFF ∧ config.model.maxInstructionBytes = 10 := by
  rw [addressMask]
  cases hmodel : config.model with
  | m68000 => exact ⟨rfl, rfl⟩
  | m68010 => exact ⟨rfl, rfl⟩
  | m68020 => cases hmodel ▸ h

/-- A byte belongs to an instruction and to what is written from `address` on. -/
def Instruction.Hit (inst : Instruction) (address : UInt32) (bytes byte : Nat) : Prop :=
  address.toNat ≤ byte ∧ byte < address.toNat + bytes ∧ inst.address.toNat ≤ byte ∧
    byte < inst.address.toNat + inst.length

namespace Sole

variable {view : GuestView} {P : Pair → Prop}
  {s : CodeStore} {p : Pair} {inst : Instruction} {size : Size} {byte : Nat}

/-- A write that hits an instruction is noticed at its first byte or its last. Only a long at an odd
address can have an instruction in its middle, and then one of the two is in the same region if regions
are longs at least. -/
theorem noticed (hmarked : Marked config map P s) (hhigh : config.trackingShift.toNat ≤ 16)
    (hp : P p) (hunit : p.unit = .instruction inst) (htracked : map.isTracked inst.address = true)
    (hend : inst.address.toNat + inst.length ≤ config.addressMask.toNat + 1)
    (heven : inst.address &&& 1 = 0) (hwords : inst.length % 2 = 0)
    (haligned : size = .byte ∨ address &&& 1 = 0 ∨ 2 ≤ config.trackingShift.toNat)
    (htop : address.toNat + size.bytes < 2 ^ 32) (hhit : inst.Hit address size.bytes byte) :
    s.isMarked config address = true ∨
      s.isMarked config (address + (size.bytes - 1).toUInt32) = true := by
  obtain ⟨hfirst, hlast, hlow, hbyte⟩ := hhit
  have hmark (x : UInt32) (hle : inst.address.toNat ≤ x.toNat)
      (hlt : x.toNat < inst.address.toNat + inst.length) : s.isMarked config x = true :=
    Std.HashSet.contains_iff_mem.mpr (hmarked.regions p hp inst hunit htracked _
      (regionOf_mem hhigh hend hle hlt))
  have hend' : (address + (size.bytes - 1).toUInt32).toNat = address.toNat + (size.bytes - 1) := by
    rw [UInt32.toNat_add, Nat.toUInt32, UInt32.toNat_ofNat', Nat.mod_eq_of_lt (by omega),
      Nat.mod_eq_of_lt (by omega)]
  by_cases hinside : inst.address.toNat ≤ address.toNat
  · exact .inl (hmark address hinside (by omega))
  · by_cases hover : address.toNat + (size.bytes - 1) < inst.address.toNat + inst.length
    · exact .inr (hmark _ (by omega) (by omega))
    · have hbytes : size.bytes ≤ 4 := by
        cases size <;> decide
      rw [and_one_eq_zero] at heven
      have hmiddle : inst.address.toNat = address.toNat + 1 ∧ size.bytes = 4 := by
        omega
      have hshift : 2 ≤ config.trackingShift.toNat := by
        rcases haligned with rfl | haddress | hshift
        · exact absurd hmiddle.2 (by decide)
        · rw [and_one_eq_zero] at haddress
          omega
        · exact hshift
      have hmarked' := hmark inst.address (Nat.le_refl _) (by omega)
      rw [isMarked] at hmarked'
      rw [isMarked, isMarked]
      rcases regionOf_around hhigh hshift (by omega) heven hmiddle.1
        (hend'.trans (by omega)) with hregion | hregion
      · exact .inl (hregion ▸ hmarked')
      · exact .inr (hregion ▸ hmarked')

/-- A write redirects the entries of all the instructions it hits. -/
theorem redirects_hit (h : Sole config map view P s) (hmarked : Marked config map P s)
    (hhigh : config.trackingShift.toNat ≤ 16) (hp : P p) (hunit : p.unit = .instruction inst)
    (hlookup : s.lookup inst.address = some p.left.toUInt32)
    (htracked : map.isTracked inst.address = true)
    (hend : inst.address.toNat + inst.length ≤ config.addressMask.toNat + 1)
    (hwords : inst.length % 2 = 0) (hlongest : inst.length ≤ config.model.maxInstructionBytes)
    (haligned : size = .byte ∨ address &&& 1 = 0 ∨ 2 ≤ config.trackingShift.toNat)
    (htop : address.toNat + size.bytes < 2 ^ 32) (hhit : inst.Hit address size.bytes byte) :
    (s.noteWrite config address size.bytes).entryKind p.left.toUInt32 = .redirected := by
  have heven := (EntryTable.lookup_eq_some.mp hlookup).1
  have hnoticed := noticed hmarked hhigh hp hunit htracked hend heven hwords haligned htop hhit
  obtain ⟨hfirst, hlast, hlow, hbyte⟩ := hhit
  have hwithin := h.within hp
  obtain ⟨-, pieces, hmatched, rfl⟩ := h
  refine entryKind_eq (by omega)
    (?_ : _ = some (CodeBuffer.opening .redirected p.left 0).2)
  rw [and_one_eq_zero] at heven
  have hstop : (address + size.bytes.toUInt32).toNat = address.toNat + size.bytes := by
    rw [UInt32.toNat_add, Nat.toUInt32, UInt32.toNat_ofNat', Nat.mod_eq_of_lt (by omega),
      Nat.mod_eq_of_lt (by omega)]
  exact hmatched.noteWrite_redirects hnoticed hp hlookup (by omega) (by omega)

end Sole

theorem EntryTable.le_walkBack {table : EntryTable} {start : UInt32} {steps : Nat}
    (hsteps : 2 * steps ≤ address.toNat) (h : table.walkBack address steps = some start) :
    address.toNat ≤ start.toNat + 2 * steps := by
  induction steps generalizing address with
  | zero =>
    simp only [walkBack] at h
    split at h
    · exact Nat.le_of_eq (congrArg _ (Option.some.inj h))
    · exact absurd h.symm (Option.some_ne_none _)
  | succ steps ih =>
    simp only [walkBack] at h
    split at h
    · rw [← Option.some.inj h]
      omega
    · have hback : (address - 2).toNat = address.toNat - 2 :=
        UInt32.toNat_sub_of_le address 2 (UInt32.le_iff_toNat_le.mpr (by
          change 2 ≤ address.toNat
          omega))
      have hrest := ih (by omega) h
      omega
    · exact absurd h.symm (Option.some_ne_none _)

namespace CodeStore

variable (s : CodeStore) (config : Config) {bytes : Nat}

theorem le_windowStart (haddress : 64 ≤ address.toNat) :
    address.toNat ≤ s.windowStart config address + 32 := by
  have hfirst := toNat_clear_lowest address
  have hlongest : config.model.maxInstructionBytes ≤ 22 := by
    cases config.model <;> decide
  have hfound : address.toNat ≤ ((s.entries.instructionStart (address &&& 0xFFFFFFFE)
      config.model.maxInstructionBytes).getD (address &&& 0xFFFFFFFE)).toNat + 32 := by
    cases hsome : s.entries.instructionStart (address &&& 0xFFFFFFFE)
        config.model.maxInstructionBytes with
    | none =>
      rw [Option.getD_none, hfirst]
      omega
    | some start =>
      have hclear : (address &&& 0xFFFFFFFE &&& 0xFFFFFFFE) = address &&& 0xFFFFFFFE := by
        rw [UInt32.and_assoc, UInt32.and_self]
      rw [EntryTable.instructionStart, hclear] at hsome
      have hback := EntryTable.le_walkBack (by omega) hsome
      rw [Option.getD_some]
      omega
  unfold windowStart
  omega

/-- Where the end of what is written is past the last address, nothing is searched. -/
theorem noteWrite_past (hbytes : bytes ≤ 4) (htop : 2 ^ 32 ≤ address.toNat + bytes) :
    s.noteWrite config address bytes = s := by
  have hle : address.toNat ≤ s.windowStart config address + 32 :=
    s.le_windowStart config (by omega)
  have hstop : (address + bytes.toUInt32).toNat = address.toNat + bytes - 2 ^ 32 := by
    have hbound := address.toNat_lt
    rw [UInt32.toNat_add, Nat.toUInt32, UInt32.toNat_ofNat']
    omega
  have hnone : ¬(s.windowStart config address).toUInt32 < address + bytes.toUInt32 := by
    rw [UInt32.lt_iff_toNat_lt, hstop, toNat_windowStart]
    omega
  rw [noteWrite, redirectWindow_eq, redirectEntries, if_neg hnone]
  split <;> rfl

end CodeStore

namespace Cpu

/-- A write of any size, of longs in either order. -/
def put (cpu : Cpu) (size : Size) (lowFirst : Bool) (address value : UInt32) : Cpu :=
  match size with
  | .byte => cpu.write8 address value.toUInt8
  | .word => cpu.write16 address value.toUInt16
  | .long =>
    if lowFirst then cpu.write32LowFirst address value else cpu.write32 address value

theorem afterWrite_store (cpu : Cpu) (address : UInt32) (bytes : Nat) (action : DeviceAction) :
    (cpu.afterWrite address bytes action).store =
      cpu.store.noteWrite cpu.config (cpu.memory.canonical address) bytes := by
  cases action <;> rfl

theorem put_store (cpu : Cpu) (size : Size) (lowFirst : Bool) (address value : UInt32) :
    (cpu.put size lowFirst address value).store =
      cpu.store.noteWrite cpu.config (cpu.memory.canonical address) size.bytes := by
  have hwritten (w : MemoryMap.Write) (action : DeviceAction) :
      (Cpu.afterWrite { cpu with memory := (cpu.memory.write address w).2 } address w.bytes
        action).store = cpu.store.noteWrite cpu.config (cpu.memory.canonical address) w.bytes := by
    rw [afterWrite_store, ← (cpu.memory.sameShape_write address w).canonical]
  cases size with
  | byte => exact hwritten (.byte _) _
  | word => exact hwritten (.word _) _
  | long =>
    cases lowFirst with
    | false => exact hwritten (.long _) _
    | true => exact hwritten (.longLowFirst _) _

end Cpu

/-- The history of a new processor that runs and compiles the invalid instruction at address 0. -/
theorem Cpu.history_invalid (config : Config) (memory : MemoryMap)
    (h : ((fresh config memory).begin 100).ComesTo fun s =>
      s.cpu.store.lookup 0 = some 20 ∧ s.cpu.store.code.ops.size < 2 ^ 31 ∧
        (20, 0) ∈ s.cpu.store.entries.origins ∧
        s.cpu.view.instructionAt 0 = .ofInvalid 0 0x7171) :
    ∃ s : Session, (fresh config memory).begin 100 = .next s ∧
      s.cpu.view = (fresh config memory).view ∧
      s.cpu.store = (initial.locate (fresh config memory).view 0).2 ∧ s.cpu.Fits ∧
      (∀ allowed, Moment.History allowed (.idle (fresh config memory)) (.running s)
        [.running s, .idle (fresh config memory)]) ∧
      s.cpu.store.lookup 0 = some 20 ∧
      MadeFrom [.running s, .idle (fresh config memory)] 20 (.ofInvalid 0 0x7171) := by
  obtain ⟨s, hbegin, hlookup, hfits, horigin, hinst⟩ := h.session
  have hfirst (allowed : Operation → Prop) :=
    (.start : Moment.History allowed (.idle (fresh config memory)) _ _).first
      (List.forall_mem_singleton.mpr rfl) hbegin horigin
  rw [hinst] at hfirst
  have hstart := (Step.eq_of_translated ((begin_of_locate rfl
    (show (0 : UInt32) &&& 1 = 0 by decide) rfl 100).symm.trans hbegin)).symm
  refine ⟨s, hbegin, ?_, ?_, hfits, fun allowed => (hfirst allowed).1, hlookup,
    (hfirst fun _ => True).2⟩ <;>
  · cases hstart
    rfl

/-- Words and longs at even addresses do not end just before the last address. -/
theorem Size.eq_byte_of_end {size : Size} (haligned : size = .byte ∨ address &&& 1 = 0)
    (hend : address.toNat + size.bytes = 2 ^ 32 - 1) : size = .byte := by
  refine haligned.elim id fun heven => ?_
  rw [and_one_eq_zero] at heven
  cases size with
  | byte => rfl
  | word =>
    change address.toNat + 2 = 2 ^ 32 - 1 at hend
    omega
  | long =>
    change address.toNat + 4 = 2 ^ 32 - 1 at hend
    omega

/-- Writes keep code in step with memory but for the last addresses of all. On a model with 32
address lines and in a map that repeats nothing, a write that ends two bytes before the last address
or earlier looks for entries and comes to an end with that, and redirects the entries of all compiled
instructions it hits. For a byte written to code just before the last address the search goes on for
ever, and a write that goes up to it or beyond redirects nothing. -/
theorem write_redirects_below_top {cpu : Cpu} {config : Config} {memory : MemoryMap}
    (hnew : cpu.IsNew config memory) (hmodel : config.model = .m68020)
    (hmasks : ∀ chunk ∈ memory.chunks, chunk.mask = 0xFFFFFFFF) {m : Moment} {past : List Moment}
    (hhistory : Moment.History (fun _ => True) (.idle cpu) m past) (hfits : m.cpu.Fits)
    {size : Size} {address : UInt32} (haligned : size = .byte ∨ address &&& 1 = 0)
    (lowFirst : Bool) (value : UInt32) :
    (address.toNat + size.bytes ≤ 2 ^ 32 - 2 →
      (m.cpu.put size lowFirst address value).store.endless = m.cpu.store.endless ∧
        ∀ n inst, MadeFrom past n inst → m.cpu.store.lookup inst.address = some n →
          memory.isTracked inst.address = true →
          (∃ byte, inst.Hit address size.bytes byte) →
          (m.cpu.put size lowFirst address value).store.entryKind n = .redirected) ∧
      (address.toNat + size.bytes = 2 ^ 32 - 1 →
        (m.cpu.put size lowFirst address value).store.endless =
          (m.cpu.store.endless || m.cpu.store.isMarked config address)) ∧
      (2 ^ 32 ≤ address.toNat + size.bytes →
        (m.cpu.put size lowFirst address value).store = m.cpu.store) := by
  obtain ⟨P, hsole, hmarked, hmade, hfixed⟩ := hnew.marked hhistory hfits
  have hbytes : 0 < size.bytes ∧ size.bytes ≤ 4 := by
    cases size <;> decide
  have hstop (htop : address.toNat + size.bytes < 2 ^ 32) :
      (address + size.bytes.toUInt32).toNat = address.toNat + size.bytes := by
    rw [UInt32.toNat_add, Nat.toUInt32, UInt32.toNat_ofNat', Nat.mod_eq_of_lt (by omega),
      Nat.mod_eq_of_lt (by omega)]
  have hmask : config.addressMask = 0xFFFFFFFF := by
    rw [Config.addressMask, hmodel]
    rfl
  have hconfig : m.cpu.config = config := hsole.fixed.config
  have hcanonical : m.cpu.memory.canonical address = address := by
    rw [show m.cpu.memory.canonical address = memory.canonical address from
      hsole.fixed.canonical address, MemoryMap.canonical_of_masks hmasks, hnew.eq_fresh.1, hmask,
      and_full]
  rw [Cpu.put_store, hconfig, hcanonical]
  refine ⟨fun htop => ⟨?_, ?_⟩, fun htop => ?_, fun htop => ?_⟩
  · have hother : address + size.bytes.toUInt32 ≠ 0xFFFFFFFF := by
      intro hsame
      have hnat := congrArg UInt32.toNat hsame
      rw [hstop (by omega)] at hnat
      change address.toNat + size.bytes = 2 ^ 32 - 1 at hnat
      omega
    rw [endless_noteWrite, decide_eq_false hother, Bool.and_false, Bool.or_false]
  · rintro n inst hfrom hlookup htracked ⟨byte, hhit⟩
    obtain ⟨p, hp, rfl, hunit⟩ := hmade n inst hfrom
    obtain ⟨m', hm', hinst⟩ := hfrom.decoded
    have heven := (EntryTable.lookup_eq_some.mp hlookup).1
    have hlength := m'.cpu.view.instructionAt_length_le inst.address
    have hwords := m'.cpu.view.instructionAt_even inst.address
    have hbus : inst.address &&& m'.cpu.view.memory.addressMask = inst.address := by
      rw [(hfixed m' hm').shape.bus, hnew.eq_fresh.1, hmask, and_full]
    have hend := m'.cpu.view.instructionAt_end_le heven hbus
    rw [← hinst] at hlength hwords hend
    refine hsole.redirects_hit hmarked hnew.shift.2 hp hunit hlookup htracked ?_ hwords ?_
      (haligned.imp_right .inl) (by omega) hhit
    · rw [hmask]
      exact hend
    · rw [hmodel]
      exact hlength
  · have hlast : address + size.bytes.toUInt32 = 0xFFFFFFFF :=
      UInt32.toNat_inj.mp ((hstop (by omega)).trans htop)
    have hone : address + (size.bytes - 1).toUInt32 = address := by
      rw [Size.eq_byte_of_end haligned htop]
      exact UInt32.add_zero address
    rw [endless_noteWrite, decide_eq_true hlast, hone, Bool.and_true, Bool.or_self]
  · exact m.cpu.store.noteWrite_past config hbytes.2 htop

theorem write_redirects_below_top_byte :
    ∃ s : Session,
      (Cpu.fresh { Config.default with model := .m68020 } (.filled 0xFFFFFFFF 0xFFFFFFFF)).begin
        100 = .next s ∧ s.cpu.store.lookup 0 = some 20 ∧
      (s.cpu.put .byte false 0 7).store.entryKind 20 = .redirected := by
  obtain ⟨s, hbegin, -, -, hfits, hhistory, hlookup, hmade⟩ :=
    Cpu.history_invalid { Config.default with model := .m68020 } (.filled 0xFFFFFFFF 0xFFFFFFFF)
      (by decide +kernel)
  have hnew : Cpu.IsNew _ { Config.default with model := .m68020 } (.filled 0xFFFFFFFF 0xFFFFFFFF) :=
    ⟨⟨_, _, MemoryMap.build_filled _ _⟩, rfl⟩
  have hredirects := (write_redirects_below_top hnew rfl
    (fun chunk hchunk => by rw [List.mem_singleton.mp (Array.mem_toList_iff.mpr hchunk)]; rfl)
    (hhistory _) hfits (show Size.byte = .byte ∨ (0 : UInt32) &&& 1 = 0 from .inl rfl) false 7).1
    (by decide)
  exact ⟨s, hbegin, hlookup, hredirects.2 20 _ hmade hlookup (by decide +kernel)
    ⟨0, by decide, by decide, by decide, by decide⟩⟩

end Dynarec68k
