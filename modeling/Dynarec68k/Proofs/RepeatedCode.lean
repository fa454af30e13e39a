import Dynarec68k.Proofs.WrittenCode

namespace Dynarec68k

open Host Relation MemoryMap UInt32

variable {map : MemoryMap} {chunk : Chunk}

theorem toNat_and_odd (x : UInt32) {mask : UInt32} (hmask : mask &&& 1 = 1) :
    (x &&& mask).toNat % 2 = x.toNat % 2 := by
  have hodd : mask.toNat % 2 = 1 := by
    have htoNat := congrArg toNat hmask
    rw [UInt32.toNat_and] at htoNat
    exact (Nat.and_one_is_mod _).symm.trans htoNat
  rw [UInt32.toNat_and, ← Nat.pow_one 2, Nat.and_mod_two_pow, Nat.pow_one, hodd,
    Nat.and_one_is_mod, Nat.mod_mod]

namespace MemoryMap

theorem canonical_parity {x : UInt32} (hchunk : map.chunkAt? x = some chunk)
    (hbus : map.addressMask &&& 1 = 1) (hstart : chunk.start &&& 1 = 0)
    (hmask : chunk.mask &&& 1 = 1) : (map.canonical x).toNat % 2 = x.toNat % 2 := by
  have hsum := (toNat_canonical hchunk).1
  have hoffset := toNat_and_odd ((x &&& map.addressMask) - chunk.start) hmask
  have hdrop := toNat_and_odd x hbus
  rw [and_one_eq_zero] at hstart
  rw [UInt32.toNat_sub] at hoffset
  rw [Chunk.offset] at hsum
  have hbound := chunk.start.toNat_lt
  omega

theorem Sound.chunkAt?_add (h : map.Sound) {x : UInt32} (hchunk : map.chunkAt? x = some chunk)
    (hx : x &&& map.addressMask = x) (hstop : chunk.stop.toNat ≤ map.addressMask.toNat + 1)
    {j : Nat} (hj : x.toNat + j < chunk.stop.toNat) :
    map.chunkAt? (x + j.toUInt32) = some chunk ∧ (x + j.toUInt32).toNat = x.toNat + j := by
  have hbound := chunk.stop.toNat_lt
  have hsum : (x + j.toUInt32).toNat = x.toNat + j := by
    rw [UInt32.toNat_add, Nat.toUInt32, UInt32.toNat_ofNat', Nat.mod_eq_of_lt (by omega),
      Nat.mod_eq_of_lt (by omega)]
  have hself : map.addressMask &&& map.addressMask = map.addressMask := UInt32.and_self
  have hbus : x + j.toUInt32 &&& map.addressMask = x + j.toUInt32 := by
    refine h.bus map.addressMask _ (le_iff_toNat_le.mpr ?_)
    rw [hself]
    omega
  have hinside := List.find?_some hchunk
  rw [hx] at hinside
  refine ⟨?_, hsum⟩
  rw [chunkAt?, hbus]
  refine find?_contains h.apart (List.mem_of_find?_eq_some hchunk) ?_
  simp only [Chunk.contains, Bool.and_eq_true, decide_eq_true_eq, le_iff_toNat_le,
    lt_iff_toNat_lt] at hinside ⊢
  omega

end MemoryMap

theorem MadeFrom.inside {past : List Moment} {n : CodePtr} {inst : Instruction}
    (h : MadeFrom past n inst) {config : Config} (hfixed : ∀ m ∈ past, m.cpu.view.Fixed config map)
    (heven : inst.address &&& 1 = 0) (hbus : inst.address &&& map.addressMask = inst.address)
    (hchunk : map.chunkAt? inst.address = some chunk) (hstop : chunk.stop &&& 1 = 0) :
    inst.address.toNat + inst.length ≤ chunk.stop.toNat := by
  obtain ⟨m, hm, hinst⟩ := h.decoded
  have hshape := (hfixed m hm).shape
  have hbus' : inst.address &&& m.cpu.view.memory.addressMask = inst.address := by
    rwa [hshape.bus]
  have hsame := hshape.chunkAt? inst.address
  rw [hchunk, Option.map_some] at hsame
  rcases m.cpu.view.instructionAt_end heven hbus' with hshort | ⟨chunk', hchunk', hend⟩
  · have hinside := List.find?_some hchunk
    simp only [Chunk.contains, Bool.and_eq_true, decide_eq_true_eq, hbus,
      lt_iff_toNat_lt] at hinside
    rw [← hinst] at hshort
    rw [and_one_eq_zero] at heven hstop
    omega
  · rw [hchunk', Option.map_some, Option.some_inj] at hsame
    have hsame' : chunk'.stop = chunk.stop := congrArg ChunkShape.stop hsame
    rw [← hinst, hsame'] at hend
    exact hend

section

variable {size : Size} {address : UInt32} {inst : Instruction} {i j : Nat}
  (hi : i < size.bytes) (hj : j < inst.length)
include hi hj

/-- A write and an instruction that both reach a byte without passing the end of a copy. -/
theorem Instruction.hit_within
    (hreach : (map.canonical (address + i.toUInt32)).toNat = (map.canonical address).toNat + i)
    (hreach' : (map.canonical (inst.address + j.toUInt32)).toNat = inst.address.toNat + j)
    (hwritten : map.canonical (address + i.toUInt32) = map.canonical (inst.address + j.toUInt32)) :
    inst.Hit (map.canonical address) size.bytes (inst.address.toNat + j) := by
  rw [hwritten] at hreach
  exact ⟨by omega, by omega, by omega, by omega⟩

/-- Both go on over the end of a copy, so both have its last byte. -/
theorem Instruction.hit_beyond (hchunk : map.chunkAt? inst.address = some chunk)
    (hhome : map.canonical inst.address = inst.address)
    (hbus : inst.address &&& map.addressMask = inst.address)
    (hsame : map.chunkAt? address = some chunk)
    (hover : chunk.mask.toNat < (chunk.offset (address &&& map.addressMask)).toNat + i)
    (hover' : chunk.mask.toNat < (chunk.offset inst.address).toNat + j) :
    inst.Hit (map.canonical address) size.bytes (chunk.start.toNat + chunk.mask.toNat) := by
  have hoffset (x : UInt32) : (chunk.offset x).toNat ≤ chunk.mask.toNat := by
    rw [Chunk.offset, UInt32.toNat_and]
    exact Nat.and_le_right
  have hfirst := (toNat_canonical hsame).1
  have hfirst' := (toNat_canonical hchunk).1
  have hle := hoffset (address &&& map.addressMask)
  have hle' := hoffset inst.address
  rw [hhome, hbus] at hfirst'
  exact ⟨by omega, by omega, by omega, by omega⟩

end

/-- Writes keep code in step with memory also in ranges that repeat, as long as both of them reach a
byte that they share in the same copy. On the models with 24 address lines, in a range of whole words
on the bus: if a byte that an instruction was decoded from is written, and neither the instruction nor
the write passes the end of a copy on the way to it, or both of them do, then the entry of the
instruction is redirected. -/
theorem write_redirects_repeated {cpu : Cpu} {config : Config} {memory : MemoryMap}
    (hnew : cpu.IsNew config memory) (hmodel : config.model ≠ .m68020) {m : Moment}
    {past : List Moment} (hhistory : Moment.History (fun _ => True) (.idle cpu) m past)
    (hfits : m.cpu.Fits) {size : Size} {address : UInt32}
    (haligned : size = .byte ∨ address &&& 1 = 0) (lowFirst : Bool) (value : UInt32)
    {n : CodePtr} {inst : Instruction} (hmade : MadeFrom past n inst)
    (hlookup : m.cpu.store.lookup inst.address = some n) {chunk : Chunk}
    (hchunk : memory.chunkAt? inst.address = some chunk) (htracked : chunk.isTracked = true)
    (hstart : chunk.start &&& 1 = 0) (hstop : chunk.stop &&& 1 = 0)
    (hmask : chunk.mask &&& 1 = 1) (hbus : chunk.stop.toNat ≤ 2 ^ 24) {i j : Nat}
    (hi : i < size.bytes) (hj : j < inst.length)
    (hwritten : memory.canonical (address + i.toUInt32) =
      memory.canonical (inst.address + j.toUInt32))
    (hcopy :
      (memory.canonical (address + i.toUInt32)).toNat = (memory.canonical address).toNat + i ∧
          (memory.canonical (inst.address + j.toUInt32)).toNat = inst.address.toNat + j ∨
        memory.chunkAt? address = some chunk ∧
          chunk.mask.toNat < (chunk.offset (address &&& memory.addressMask)).toNat + i ∧
          chunk.mask.toNat < (chunk.offset inst.address).toNat + j) :
    (m.cpu.put size lowFirst address value).store.entryKind n = .redirected := by
  obtain ⟨P, hsole, hmarked, hunits, hfixed⟩ := hnew.marked hhistory hfits
  obtain ⟨p, hp, rfl, hunit⟩ := hunits n inst hmade
  obtain ⟨m', hm', hinst⟩ := hmade.decoded
  have hsound := hnew.sound
  have hmodel' := Model.is68020_eq_false hmodel
  obtain ⟨hlines, hlongest⟩ := Config.narrow hmodel'
  have haddressMask : memory.addressMask = 0x00FFFFFF := hnew.eq_fresh.1.trans hlines
  have heven := (EntryTable.lookup_eq_some.mp hlookup).1
  have hhome : memory.canonical inst.address = inst.address := by
    have hcanonical := hmarked.canonical p hp
    rwa [hunit] at hcanonical
  have honBus : inst.address &&& memory.addressMask = inst.address := by
    rw [← hhome]
    exact hsound.canonical_onBus inst.address
  have hinside := hmade.inside hfixed heven honBus hchunk hstop
  have hodd : memory.addressMask &&& 1 = 1 := haddressMask ▸ rfl
  have hbus' : chunk.stop.toNat ≤ memory.addressMask.toNat + 1 := haddressMask ▸ hbus
  have hcanonical : (memory.canonical address).toNat ≤ 0xFFFFFF :=
    canonical_le_bus haddressMask address
  -- both bytes are in the range, so both addresses have the parity they have there
  obtain ⟨hbyte, -⟩ := hsound.chunkAt?_add hchunk honBus hbus' (j := j) (by omega)
  have hbyte' : memory.chunkAt? (address + i.toUInt32) = some chunk := by
    rw [← hsound.chunkAt?_canonical, hwritten, hsound.chunkAt?_canonical, hbyte]
  have hparity := canonical_parity hbyte' hodd hstart hmask
  obtain ⟨haligned', byte, hhit⟩ : (size = .byte ∨ memory.canonical address &&& 1 = 0) ∧
      ∃ byte, inst.Hit (memory.canonical address) size.bytes byte := by
    rcases hcopy with ⟨hreach, hreach'⟩ | ⟨hsame, hover, hover'⟩
    · refine ⟨haligned.imp_right fun haddress => ?_, _,
        inst.hit_within hi hj hreach hreach' hwritten⟩
      rw [hreach, UInt32.toNat_add, Nat.toUInt32, UInt32.toNat_ofNat'] at hparity
      rw [and_one_eq_zero] at haddress ⊢
      omega
    · refine ⟨haligned.imp_right fun haddress => ?_, _,
        inst.hit_beyond hi hj hchunk hhome honBus hsame hover hover'⟩
      have hparity' := canonical_parity hsame hodd hstart hmask
      rw [and_one_eq_zero] at haddress ⊢
      omega
  rw [Cpu.put_store, show m.cpu.config = config from hsole.fixed.config,
    show m.cpu.memory.canonical address = memory.canonical address from
      hsole.fixed.canonical address]
  refine hsole.redirects_hit hmarked hnew.shift.2 hp hunit hlookup ?_ ?_ ?_ ?_
    (haligned'.imp_right .inl) ?_ hhit
  · rw [isTracked_eq, hchunk]
    exact htracked
  · rw [hlines]
    exact hinside.trans hbus
  · rw [hinst]
    exact m'.cpu.view.instructionAt_even inst.address
  · rw [hlongest, hinst]
    exact Instruction.decode_length_le_ten ((hfixed m' hm').config ▸ hmodel') _ _
  · have hbytes : size.bytes ≤ 4 := by
      cases size <;> decide
    omega

theorem write_redirects_repeated_alias :
    ∃ s : Session,
      (Cpu.fresh Config.default (.filled 0x00FFFFFF 31)).begin 100 = .next s ∧
        s.cpu.store.lookup 0 = some 20 ∧
        (s.cpu.put .word false 32 0x4E71).store.entryKind 20 = .redirected := by
  obtain ⟨s, hbegin, -, -, hfits, hhistory, hlookup, hmade⟩ :=
    Cpu.history_invalid .default (.filled 0x00FFFFFF 31) (by decide +kernel)
  refine ⟨s, hbegin, hlookup, ?_⟩
  have hchunk : (filled 0x00FFFFFF 31).chunkAt? 32 = some (.filled 31) := rfl
  have halias : (filled 0x00FFFFFF 31).canonical 32 = 0 := by
    rw [canonical_eq, hchunk]
    decide
  have hhome : (filled 0x00FFFFFF 31).canonical 0 = 0 := by decide +kernel
  have hmodel : Config.default.model ≠ .m68020 := by
    decide
  exact write_redirects_repeated ⟨⟨_, _, build_filled _ 31⟩, rfl⟩ hmodel (hhistory _) hfits
    (.inr (by decide)) false 0x4E71 hmade hlookup (chunkAt?_filled _ 31) rfl (by decide)
    (by decide) (by decide) (by decide) (i := 0) (j := 0) (by decide) (by decide)
    (halias.trans hhome.symm)
    (.inl ⟨congrArg toNat (halias.trans halias.symm), congrArg toNat hhome⟩)

end Dynarec68k
