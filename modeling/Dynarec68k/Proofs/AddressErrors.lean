import Dynarec68k.Proofs.ExceptionFrames

namespace Dynarec68k

open Host

variable (cpu : Cpu) (fault : AddressFault) (vector : Nat) {word : UInt16} {x : UInt32}

namespace Backing

theorem get_of_wordOf {backing : Backing} {data : ByteArray} {index : Nat}
    (hbytes : backing.bytes? = some data) (hword : MemoryMap.wordOf data index = some word) :
    (backing.get index).toUInt16 <<< 8 ||| (backing.get (index + 1)).toUInt16 = word := by
  have hbyte (k : Nat) {value : UInt8} (hk : data.data[k]? = some value) :
      backing.get k = value := by
    refine get_of_byte? ?_
    rw [byte?_mapped, hbytes]
    exact hk
  unfold MemoryMap.wordOf at hword
  split at hword
  · rename_i high low hhigh hlow
    rw [hbyte _ hhigh, hbyte _ hlow]
    exact Option.some.inj hword
  · cases hword

theorem bytes?_congr {backing backing' : Backing} (hmapped : backing'.mapped = backing.mapped)
    (hsizes : backing'.buffers.map ByteArray.size = backing.buffers.map ByteArray.size)
    (hbytes : ∀ buffer index, backing'.byte? buffer index = backing.byte? buffer index) :
    backing'.bytes? = backing.bytes? := by
  rw [bytes?_eq, bytes?_eq, hmapped]
  have hsize := congrArg (·[backing.mapped]?) hsizes
  have hbyte := hbytes backing.mapped
  unfold byte? at hbyte
  simp only [List.getElem?_map] at hsize
  cases hleft : backing'.buffers[backing.mapped]? with
  | none =>
    cases hright : backing.buffers[backing.mapped]? with
    | none => rfl
    | some data =>
      rw [hleft, hright] at hsize
      cases hsize
  | some data' =>
    cases hright : backing.buffers[backing.mapped]? with
    | none =>
      rw [hleft, hright] at hsize
      cases hsize
    | some data =>
      simp only [hleft, hright, Option.bind_some] at hbyte
      have hdata : data'.data = data.data := Array.ext_getElem? hbyte
      exact congrArg some (ByteArray.ext hdata)

end Backing

namespace MemoryMap

theorem clear_lowest_of_even (h : x &&& 1 = 0) : x &&& 0xFFFFFFFE = x := by
  rw [and_one_eq_zero] at h
  rw [← UInt32.toNat_inj, toNat_clear_lowest]
  omega

theorem succ_eq_or (h : x &&& 1 = 0) : x + 1 = x ||| 1 :=
  UInt32.toBitVec_inj.mp (BitVec.add_eq_or_of_and_eq_zero _ _ (congrArg UInt32.toBitVec h))

theorem succ_and {mask : UInt32} (h : x &&& 1 = 0) (hmask : mask &&& 1 = 1) :
    (x + 1) &&& mask = (x &&& mask) + 1 := by
  rw [succ_eq_or h, succ_eq_or (and_one_of_and h mask)]
  apply UInt32.toNat_inj.mp
  rw [UInt32.toNat_and, UInt32.toNat_or, UInt32.toNat_or, UInt32.toNat_and,
    Nat.and_or_distrib_right, ← UInt32.toNat_and 1, UInt32.and_comm 1, hmask]

theorem offset_succ {chunk : Chunk} (hx : x &&& 1 = 0) (hstart : chunk.start &&& 1 = 0)
    (hmask : chunk.mask &&& 1 = 1) : (chunk.offset (x + 1)).toNat = (chunk.offset x).toNat + 1 := by
  have hdiff : (x - chunk.start) &&& 1 = 0 := by
    rw [and_one_eq_zero] at hx hstart ⊢
    rw [UInt32.toNat_sub]
    have hbound := x.toNat_lt
    omega
  have hsucc : x + 1 - chunk.start = x - chunk.start + 1 := by grind
  rw [Chunk.offset, hsucc, succ_and hdiff hmask]
  exact toNat_succ_of_even (and_one_of_and hdiff chunk.mask)

/-- Code memory of whole words that can be read as data. -/
structure ReadableCode (map : MemoryMap) (x : UInt32) : Prop where
  even : x &&& 1 = 0
  chunk : ∀ chunk, map.chunkAt? x = some chunk →
    chunk.access.read = true ∧ chunk.access.laneOnly = false ∧ chunk.start &&& 1 = 0 ∧
      chunk.mask &&& 1 = 1

theorem ReadableCode.congr {map map' : MemoryMap} (h : map.ReadableCode x)
    (hshape : SameShape map map') : map'.ReadableCode x := by
  refine ⟨h.even, fun chunk hchunk => ?_⟩
  have hmap := hshape.chunkAt? x
  rw [hchunk, Option.map_some, eq_comm, Option.map_eq_some_iff] at hmap
  obtain ⟨chunk', hchunk', hsame⟩ := hmap
  have haccess : chunk'.access = chunk.access := congrArg ChunkShape.access hsame
  have hstart : chunk'.start = chunk.start := congrArg ChunkShape.start hsame
  have hmask : chunk'.mask = chunk.mask := congrArg ChunkShape.mask hsame
  rw [← haccess, ← hstart, ← hmask]
  exact h.chunk chunk' hchunk'

theorem ReadableCode.read16 {map : MemoryMap} (h : map.ReadableCode x) {count : Nat}
    {rest : List UInt16} (hfetch : map.fetchWords x count = word :: rest) :
    (map.read16 x).1 = word := by
  have heven := and_one_of_and h.even map.addressMask
  have hbus : x &&& map.addressMask &&& 0xFFFFFFFE = x &&& map.addressMask :=
    clear_lowest_of_even heven
  rw [fetchWords_eq_words, chunkAt?_eq] at hfetch
  cases hfind : map.find? x with
  | none =>
    rw [hfind] at hfetch
    cases hfetch
  | some i =>
    rw [hfind] at hfetch
    change (map.chunk i).words (x &&& map.addressMask) count = _ at hfetch
    obtain ⟨hread, hlane, hstart, hmask⟩ := h.chunk (map.chunk i) (by
      rw [chunkAt?_eq, hfind]
      rfl)
    have hindex (y : UInt32) : (map.chunk i).index? y = some ((map.chunk i).offset y).toNat := by
      rw [Chunk.index?, hlane]
      rfl
    unfold Chunk.words at hfetch
    cases hbytes : (map.chunk i).backing.bytes? with
    | none =>
      rw [hbytes] at hfetch
      cases hfetch
    | some data =>
      rw [hbytes] at hfetch
      have hword : map.find? (x &&& map.addressMask &&& 0xFFFFFFFE) = some i := by
        rw [hbus, find?_onBus, hfind]
      rw [read16_found hword hread (Backing.plain_of_bytes? hbytes), hbus]
      simp only [Chunk.get, hindex, offset_succ heven hstart hmask]
      cases count with
      | zero => cases hfetch
      | succ count =>
        change fetchFrom (map.chunk i) data (x &&& map.addressMask) (count + 1) = _ at hfetch
        rw [fetchFrom] at hfetch
        split at hfetch
        · cases hfetch
        · cases hword : wordOf data ((map.chunk i).offset (x &&& map.addressMask)).toNat with
          | none =>
            rw [hword] at hfetch
            cases hfetch
          | some first =>
            rw [hword] at hfetch
            rw [Backing.get_of_wordOf hbytes hword]
            exact (List.cons.inj hfetch).1

theorem SameBytes.sameCode {m m' : MemoryMap} (h : SameBytes m m') : SameCode m m' where
  bus := h.layout.bus
  chunks := by
    refine List.ext_getElem? fun k => ?_
    have hlayout := congrArg (·[k]?) h.layout.chunks
    have hbytes (buffer index : Nat) := h.bytes ⟨k, buffer, index⟩
    unfold byteIn? at hbytes
    simp only [List.getElem?_map, Array.getElem?_toList] at hlayout hbytes ⊢
    cases hleft : m'.chunks[k]? with
    | none =>
      cases hright : m.chunks[k]? with
      | none => rfl
      | some chunk =>
        rw [hleft, hright] at hlayout
        cases hlayout
    | some chunk' =>
      cases hright : m.chunks[k]? with
      | none =>
        rw [hleft, hright] at hlayout
        cases hlayout
      | some chunk =>
        simp only [hleft, hright, Option.map_some, Option.bind_some, Option.some_inj]
          at hlayout hbytes ⊢
        have hshape : chunk'.shape = chunk.shape := congrArg ChunkLayout.shape hlayout
        have hsame := Backing.bytes?_congr (congrArg ChunkLayout.mapped hlayout)
          (congrArg ChunkLayout.sizes hlayout) hbytes
        exact Prod.ext hshape hsame

end MemoryMap

namespace Cpu

/-- The words of the frame of an address error, from the lowest address on. -/
def faultFrame (cpu : Cpu) (fault : AddressFault) (ir : UInt16) : List UInt16 :=
  [fault.accessWord ir cpu.registers.supervisor, (fault.address >>> 16).toUInt16,
    fault.address.toUInt16, ir, cpu.registers.sr, (cpu.faultPc fault >>> 16).toUInt16,
    (cpu.faultPc fault).toUInt16]

/-- An address error was taken: its frame is on the supervisor stack, and nothing else has changed
in the data registers and in plain memory. -/
structure Faulted (before : Cpu) (fault : AddressFault) (ir : UInt16) (cpu : Cpu) : Prop where
  data : ∀ n, cpu.registers.d n = before.registers.d n
  frame : cpu.memory.words (below (before.registers.stack true) 7) 7 = before.faultFrame fault ir
  outside : ∀ cell, some cell ∉ before.memory.cellsAt (below (before.registers.stack true) 7) 14 →
    cpu.memory.byteIn? cell = before.memory.byteIn? cell

theorem sameBytes_faultOpcode :
    MemoryMap.SameBytes cpu.memory (cpu.faultOpcode fault).2.memory := by
  unfold faultOpcode
  split
  · exact MemoryMap.sameBytes_read16 _ _
  · exact .refl _

theorem faultOpcode_same :
    (cpu.faultOpcode fault).2.registers = cpu.registers ∧
      (cpu.faultOpcode fault).2.faultPc fault = cpu.faultPc fault := by
  unfold faultOpcode
  split <;> exact ⟨rfl, rfl⟩

theorem registers_handle : (cpu.handle vector).2.registers = cpu.registers := by
  rw [← registers_vectorTo cpu vector, handle]
  split
  · rename_i hresult
    rw [hresult]
  · rename_i hresult
    rw [hresult]
    rfl

theorem sameBytes_handle : MemoryMap.SameBytes cpu.memory (cpu.handle vector).2.memory := by
  have hsame := MemoryMap.sameBytes_read32 cpu.memory (4 * vector).toUInt32
  rw [← memory_vectorTo cpu vector] at hsame
  rw [handle]
  split
  · rename_i hresult
    rwa [hresult] at hsame
  · rename_i hresult
    rw [hresult] at hsame
    exact hsame

theorem pushed_framed (heven : cpu.registers.stack true &&& 1 = 0)
    (hram : cpu.memory.IsRam (below (cpu.registers.stack true) 7) 14) :
    Pushed (cpu.faultOpcode fault).2.enterSupervisor
      (cpu.faultFrame fault (cpu.faultOpcode fault).1) (cpu.framed fault) := by
  obtain ⟨hregisters, hpc⟩ := cpu.faultOpcode_same fault
  have hlayout := (cpu.sameBytes_faultOpcode fault).layout
  unfold framed
  generalize (cpu.faultOpcode fault).2 = read at hregisters hpc hlayout ⊢
  generalize (cpu.faultOpcode fault).1 = ir
  have hpointer := stack_enterSupervisor read
  rw [hregisters] at hpointer
  have hpushes : read.enterSupervisor.memory.IsRam
      (below (read.enterSupervisor.registers.a 7) 7) (2 * 7) := by
    rw [hpointer]
    exact hlayout.isRam hram
  rw [← hpointer] at heven
  dsimp only
  rw [hregisters, hpc]
  have hreturn := (Pushed.start read.enterSupervisor).push32 hpushes heven
    (show 2 + 0 ≤ 7 by decide) (cpu.faultPc fault)
  have hstatus := hreturn.push16 hpushes heven (show 1 + 2 ≤ 7 by decide) cpu.registers.sr
  have hopcode := hstatus.push16 hpushes heven (show 1 + 3 ≤ 7 by decide) ir
  have haddress := hopcode.push32 hpushes heven (show 2 + 4 ≤ 7 by decide) fault.address
  exact haddress.push16 hpushes heven (show 1 + 6 ≤ 7 by decide) _

theorem takeAddressError_faulted (heven : cpu.registers.stack true &&& 1 = 0)
    (hram : cpu.memory.IsRam (below (cpu.registers.stack true) 7) 14) :
    Faulted cpu fault (cpu.faultOpcode fault).1 (cpu.takeAddressError fault).2 := by
  have hpushed := cpu.pushed_framed fault heven hram
  have hopcode := cpu.sameBytes_faultOpcode fault
  have hregisters := (cpu.faultOpcode_same fault).1
  have hsame := (cpu.framed fault).sameBytes_handle ExceptionVector.addressError
  have hpointer := stack_enterSupervisor (cpu.faultOpcode fault).2
  rw [hregisters] at hpointer
  obtain ⟨hpushedRegisters, hlayout, hwords, houtside⟩ := hpushed
  rw [hpointer] at hwords houtside
  rw [takeAddressError_eq]
  refine ⟨fun n => ?_, ?_, fun cell hcell => ?_⟩
  · rw [registers_handle, hpushedRegisters, RegisterFile.d_setA, enterSupervisor, d_setSr,
      hregisters]
  · have hplain :
        none ∉ (cpu.framed fault).memory.cellsAt (below (cpu.registers.stack true) 7) 14 :=
      ((hopcode.layout.trans hlayout).isRam hram).plain
    rw [← hwords]
    exact MemoryMap.words_congr hsame.layout (below_even heven 7) hplain
      fun cell _ => hsame.bytes cell
  · have hother : some cell ∉ (cpu.faultOpcode fault).2.memory.cellsAt
        (below (cpu.registers.stack true) 7) 14 := by
      rwa [hopcode.layout.cellsAt]
    rw [hsame.bytes, houtside cell hother]
    exact hopcode.bytes cell

end Cpu

end Dynarec68k
