import Dynarec68k.Proofs.DecodedForm
import Dynarec68k.Proofs.MemoryShape

namespace Dynarec68k

open Chunk

variable {m m' map map' : MemoryMap} {bank count i index n : Nat} {a first start stop x : UInt32}
  {data : ByteArray} {chunk : Chunk}

namespace Chunk

/-- Up to `count` words of a range, from an address on the bus on. -/
def words (chunk : Chunk) (address : UInt32) (count : Nat) : List UInt16 :=
  (chunk.backing.bytes?.map fun data =>
    MemoryMap.fetchFrom chunk data address count).getD []

end Chunk

namespace MemoryMap

theorem fetchWords_eq_words (map : MemoryMap) (address : UInt32) (count : Nat) :
    map.fetchWords address count =
      ((map.chunkAt? address).map fun chunk =>
        chunk.words (address &&& map.addressMask) count).getD [] :=
  map.fetchWords_eq address count

/-- As many words are fetched, and the first `n` of them are the same. -/
def Alike (n : Nat) (words words' : List UInt16) : Prop :=
  words'.length = words.length ∧ words'.take n = words.take n

theorem fetchFrom_alike {chunk' : Chunk} (hshape : chunk'.shape = chunk.shape)
    (hmask : chunk.mask = 0xFFFFFFFF) {data' : ByteArray} (hsize : data'.size = data.size)
    {address : UInt32} (hroom : address.toNat + 2 * count < 2 ^ 32)
    (hbytes : ∀ k < 2 * n, data'.data[address.toNat - chunk.start.toNat + k]? =
      data.data[address.toNat - chunk.start.toNat + k]?) :
    Alike n (fetchFrom chunk data address count) (fetchFrom chunk' data' address count) := by
  have hstart : chunk'.start = chunk.start := congrArg ChunkShape.start hshape
  have hstop : chunk'.stop = chunk.stop := congrArg ChunkShape.stop hshape
  have hmask' : chunk'.mask = chunk.mask := congrArg ChunkShape.mask hshape
  induction count generalizing address n with
  | zero => exact ⟨rfl, rfl⟩
  | succ count ih =>
    have hoffset : chunk'.offset address = chunk.offset address := by
      rw [offset, offset, hstart, hmask']
    rw [fetchFrom, fetchFrom, hstart, hstop, hoffset]
    by_cases hinside : address < chunk.start ∨ chunk.stop ≤ address + 1
    · rw [if_pos hinside, if_pos hinside]
      exact ⟨rfl, rfl⟩
    · rw [if_neg hinside, if_neg hinside]
      have hle := UInt32.not_lt.mp (not_or.mp hinside).1
      have hindex : (chunk.offset address).toNat = address.toNat - chunk.start.toNat := by
        rw [offset, hmask, and_full, UInt32.toNat_sub_of_le address chunk.start hle]
      have hnext : (address + 2).toNat = address.toNat + 2 := by
        rw [UInt32.toNat_add]
        exact Nat.mod_eq_of_lt (by change address.toNat + 2 < 2 ^ 32; omega)
      rw [UInt32.le_iff_toNat_le] at hle
      rw [hindex]
      have hrest : ∀ k < 2 * (n - 1), data'.data[(address + 2).toNat - chunk.start.toNat + k]? =
          data.data[(address + 2).toNat - chunk.start.toNat + k]? := by
        intro k hk
        rw [show (address + 2).toNat - chunk.start.toNat + k =
          address.toNat - chunk.start.toNat + (k + 2) by omega]
        exact hbytes (k + 2) (by omega)
      obtain ⟨hlength, htake⟩ := ih (by omega) hrest
      cases hword : wordOf data (address.toNat - chunk.start.toNat) with
      | none =>
        rw [wordOf_eq_none, ← hsize, ← wordOf_eq_none] at hword
        rw [hword]
        exact ⟨rfl, rfl⟩
      | some w =>
        cases hword' : wordOf data' (address.toNat - chunk.start.toNat) with
        | none =>
          rw [wordOf_eq_none, hsize, ← wordOf_eq_none, hword] at hword'
          cases hword'
        | some w' =>
          refine ⟨congrArg (· + 1) hlength, ?_⟩
          cases n with
          | zero => rfl
          | succ n =>
            have hsame : w' = w := by
              have hfirst := hbytes 0 (by omega)
              rw [Nat.add_zero] at hfirst
              rw [wordOf, ← hfirst, ← hbytes 1 (by omega)] at hword
              exact Option.some.inj (hword'.symm.trans hword)
            rw [Option.map_some, Option.map_some, Option.getD_some, Option.getD_some,
              List.take_succ_cons, List.take_succ_cons, hsame]
            exact congrArg (w :: ·) htake

theorem Alike.refl (n : Nat) (words : List UInt16) : Alike n words words :=
  ⟨rfl, rfl⟩

theorem Alike.trans {words words' words'' : List UInt16} (h : Alike n words words')
    (h' : Alike n words' words'') : Alike n words words'' :=
  ⟨h'.1.trans h.1, h'.2.trans h.2⟩

end MemoryMap

theorem Backing.bytes?_set (backing : Backing) (index : Nat) (value : UInt8) :
    (backing.set index value).bytes? = backing.bytes?.map fun data => setByte data index value := by
  cases backing with
  | buffer data => rfl
  | banked banks active =>
    rw [set, bytes?, Array.getElem?_modify, if_pos rfl]
    rfl
  | device hardware => rfl

theorem Backing.setByte_size (data : ByteArray) (index : Nat) (value : UInt8) :
    (setByte data index value).size = data.size := by
  unfold setByte
  split
  · exact Array.size_set _
  · rfl

theorem Backing.setByte_other {value : UInt8} (h : i ≠ index) :
    (setByte data index value).data[i]? = data.data[i]? := by
  unfold setByte
  split
  · rename_i hlt
    exact Array.getElem?_set_ne hlt h.symm
  · rfl

namespace Chunk

theorem bounds_set (chunk : Chunk) (a : UInt32) (value : UInt8) :
    (chunk.set a value).start = chunk.start ∧ (chunk.set a value).stop = chunk.stop :=
  ⟨congrArg ChunkShape.start (chunk.shape_set a value),
    congrArg ChunkShape.stop (chunk.shape_set a value)⟩

theorem words_set (hlane : chunk.access.laneOnly = false) (hmask : chunk.mask = 0xFFFFFFFF)
    (ha : chunk.start ≤ a) (value : UInt8) (hroom : x.toNat + 2 * count < 2 ^ 32)
    (hx : chunk.start ≤ x) (hapart : ∀ k < 2 * n, x.toNat + k ≠ a.toNat) :
    MemoryMap.Alike n (chunk.words x count) ((chunk.set a value).words x count) := by
  have hshape := chunk.shape_set a value
  have hindex : chunk.index? a = some (a.toNat - chunk.start.toNat) := by
    rw [index?, if_neg (by rw [hlane]; exact Bool.false_ne_true), offset, hmask, and_full,
      UInt32.toNat_sub_of_le a chunk.start ha]
  have hset : chunk.set a value =
      { chunk with backing := chunk.backing.set (a.toNat - chunk.start.toNat) value } := by
    rw [set, hindex]
  rw [UInt32.le_iff_toNat_le] at ha hx
  rw [words, words, hset, Backing.bytes?_set]
  rw [hset] at hshape
  cases chunk.backing.bytes? with
  | none => exact .refl n _
  | some data =>
    refine MemoryMap.fetchFrom_alike hshape hmask (Backing.setByte_size _ _ _) hroom ?_
    intro k hk
    have hne := hapart k hk
    exact Backing.setByte_other (by omega)

end Chunk

theorem le_succ_of_even (x : UInt32) : x &&& 0xFFFFFFFE ≤ (x &&& 0xFFFFFFFE) + 1 := by
  have heven : (x &&& 0xFFFFFFFE).toNat ≤ 0xFFFFFFFE := by
    rw [UInt32.toNat_and]
    exact Nat.and_le_right
  rw [UInt32.le_iff_toNat_le, UInt32.toNat_add, UInt32.toNat_one, Nat.mod_eq_of_lt (by omega)]
  omega

theorem find?_modify {α : Type} {f : α → α} {p : α → Bool} (list : List α) (i : Nat)
    (hp : ∀ a, p (f a) = p a) :
    (list.modify i f).find? p = list.find? p ∨
      ∃ a, list[i]? = some a ∧ list.find? p = some a ∧ (list.modify i f).find? p = some (f a) := by
  induction list generalizing i with
  | nil => exact .inl (by rw [List.modify_nil])
  | cons a rest ih =>
    cases hpa : p a with
    | true =>
      cases i with
      | zero =>
        refine .inr ⟨a, rfl, List.find?_cons_of_pos hpa, ?_⟩
        exact List.find?_cons_of_pos ((hp a).trans hpa)
      | succ i =>
        refine .inl ?_
        rw [List.modify_succ_cons, List.find?_cons_of_pos hpa, List.find?_cons_of_pos hpa]
    | false =>
      have hskip {b : α} (hb : p b = false) (l : List α) : (b :: l).find? p = l.find? p :=
        List.find?_cons_of_neg (by rw [hb]; exact Bool.false_ne_true)
      cases i with
      | zero =>
        refine .inl ?_
        rw [List.modify_zero_cons, hskip ((hp a).trans hpa), hskip hpa]
      | succ i =>
        rw [List.modify_succ_cons, hskip hpa, hskip hpa]
        exact ih i

namespace MemoryMap

/-- The first `n` words of an instruction stay as they are. -/
def SameWords (m m' : MemoryMap) (x : UInt32) (n : Nat) : Prop :=
  Alike n (m.fetchWords x Model.maxInstructionWords) (m'.fetchWords x Model.maxInstructionWords)

/-- An address on the bus, of code memory that does not repeat. -/
structure PlainCode (map : MemoryMap) (x : UInt32) : Prop where
  onBus : x &&& map.addressMask = x
  room : x.toNat + 2 * Model.maxInstructionWords < 2 ^ 32
  code : ∀ chunk, map.chunkAt? x = some chunk →
    chunk.isExecutable = true ∧ chunk.mask = 0xFFFFFFFF

theorem PlainCode.congr (h : m.PlainCode x) (hshape : SameShape m m') : m'.PlainCode x where
  onBus := hshape.bus ▸ h.onBus
  room := h.room
  code := by
    intro chunk hchunk
    have hsame := hshape.chunkAt? x
    rw [hchunk, Option.map_some, eq_comm, Option.map_eq_some_iff] at hsame
    obtain ⟨chunk', hchunk', hsame⟩ := hsame
    obtain ⟨hexecutable, hmask⟩ := h.code chunk' hchunk'
    refine ⟨?_, (congrArg ChunkShape.mask hsame).symm.trans hmask⟩
    have hread := congrArg (fun shape : ChunkShape =>
      shape.access.code && !shape.access.laneOnly && !shape.device) hsame
    exact hread.symm.trans hexecutable

theorem sameWords_modifyChunk {f : Chunk → Chunk}
    (hf : ∀ chunk, (f chunk).start = chunk.start ∧ (f chunk).stop = chunk.stop)
    (h : ∀ chunk, map.chunks[i]? = some chunk → map.chunkAt? x = some chunk →
      Alike n (chunk.words (x &&& map.addressMask) Model.maxInstructionWords)
        ((f chunk).words (x &&& map.addressMask) Model.maxInstructionWords)) :
    SameWords map (map.modifyChunk i f) x n := by
  have hcontains (chunk : Chunk) :
      (f chunk).contains (x &&& map.addressMask) = chunk.contains (x &&& map.addressMask) := by
    rw [contains, contains, (hf chunk).1, (hf chunk).2]
  have hlist : (map.modifyChunk i f).chunkAt? x =
      (map.chunks.toList.modify i f).find? fun chunk =>
        chunk.contains (x &&& map.addressMask) := by
    rw [chunkAt?, modifyChunk, Array.toList_modify]
  rw [SameWords, fetchWords_eq_words, fetchWords_eq_words, hlist]
  rcases find?_modify (f := f) (p := fun chunk => chunk.contains (x &&& map.addressMask))
    map.chunks.toList i hcontains with hsame | ⟨chunk, hchunk, hfound, hfound'⟩
  · rw [hsame]
    exact .refl n _
  · rw [hfound', show map.chunkAt? x = some chunk from hfound]
    rw [Array.getElem?_toList] at hchunk
    exact h chunk hchunk hfound

theorem SameCode.sameWords (h : SameCode m m') (x : UInt32) (n : Nat) : SameWords m m' x n := by
  rw [SameWords, h.fetchWords]
  exact .refl n _

/-- The words of an instruction are in the way of writes where its range can be written. -/
def Clear (map : MemoryMap) (x : UInt32) (n : Nat) (a : UInt32) : Prop :=
  ∀ chunk, map.chunkAt? x = some chunk → chunk.access.write = true →
    ∀ k < 2 * n, x.toNat + k ≠ a.toNat

theorem Clear.congr (h : m.Clear x n a) (hshape : SameShape m m') : m'.Clear x n a := by
  intro chunk hchunk hwrite
  have hsame := hshape.chunkAt? x
  rw [hchunk, Option.map_some, eq_comm, Option.map_eq_some_iff] at hsame
  obtain ⟨chunk', hchunk', hsame⟩ := hsame
  have haccess : chunk'.access = chunk.access := congrArg ChunkShape.access hsame
  exact h chunk' hchunk' (haccess ▸ hwrite)

section

theorem start_le_of_find? {i : Fin map.chunks.size} (h : map.find? a = some i) :
    (map.chunk i).start ≤ a &&& map.addressMask := by
  have hchunk : map.chunkAt? a = some (map.chunk i) := by
    rw [chunkAt?_eq, h]
    rfl
  have hcontains := List.find?_some hchunk
  simp only [contains, Bool.and_eq_true, decide_eq_true_eq] at hcontains
  exact hcontains.1

theorem PlainCode.written (hx : map.PlainCode x) {i : Fin map.chunks.size}
    (hi : map.chunks[i.val]? = some chunk) (hchunk : map.chunkAt? x = some chunk) :
    chunk = map.chunk i ∧ chunk.access.laneOnly = false ∧ chunk.mask = 0xFFFFFFFF ∧
      chunk.start ≤ x := by
  have hcontains := List.find?_some hchunk
  simp only [contains, Bool.and_eq_true, decide_eq_true_eq, hx.onBus] at hcontains
  obtain ⟨hexecutable, hmask⟩ := hx.code chunk hchunk
  simp only [Chunk.isExecutable, Bool.and_eq_true, Bool.not_eq_true'] at hexecutable
  rw [Array.getElem?_eq_getElem i.isLt, Option.some_inj] at hi
  exact ⟨hi.symm, hexecutable.1.2, hmask, hcontains.1⟩

theorem sameWords_write8 (hx : map.PlainCode x) (value : UInt8)
    (hclear : map.Clear x n (a &&& map.addressMask)) :
    SameWords map (map.write8 a value).2 x n := by
  refine map.after_write8 (R := fun map' => SameWords map map' x n) (.refl n _)
    (fun i _ hdevice device' event =>
      (map.sameCode_setDevice i hdevice device' event).sameWords x n) a value
    fun i hfind hwrite => ?_
  refine sameWords_modifyChunk (fun chunk => chunk.bounds_set _ _) fun chunk hi hchunk => ?_
  obtain ⟨rfl, hlane, hmask, hstart⟩ := hx.written hi hchunk
  have ha := start_le_of_find? hfind
  rw [UInt32.and_assoc, UInt32.and_self] at ha
  rw [hx.onBus]
  exact words_set hlane hmask ha value hx.room hstart (hclear _ hchunk hwrite)

theorem sameWords_write16 (hx : map.PlainCode x) (value : UInt16)
    (hclear : map.Clear x n (a &&& map.addressMask &&& 0xFFFFFFFE))
    (hclear' : map.Clear x n ((a &&& map.addressMask &&& 0xFFFFFFFE) + 1)) :
    SameWords map (map.write16 a value).2 x n := by
  refine map.after_write16 (R := fun map' => SameWords map map' x n) (.refl n _)
    (fun i _ hdevice device' event =>
      (map.sameCode_setDevice i hdevice device' event).sameWords x n) a value
    fun i hfind hwrite => ?_
  have hbounds (chunk : Chunk) (y z : UInt32) (v w : UInt8) :
      ((chunk.set y v).set z w).start = chunk.start ∧
        ((chunk.set y v).set z w).stop = chunk.stop := by
    rw [(bounds_set _ _ _).1, (bounds_set _ _ _).2]
    exact chunk.bounds_set _ _
  refine sameWords_modifyChunk (fun chunk => hbounds chunk _ _ _ _) fun chunk hi hchunk => ?_
  obtain ⟨rfl, hlane, hmask, hstart⟩ := hx.written hi hchunk
  have ha := start_le_of_find? hfind
  have hbus : a &&& map.addressMask &&& 0xFFFFFFFE &&& map.addressMask =
      a &&& map.addressMask &&& 0xFFFFFFFE := by
    rw [UInt32.and_assoc, UInt32.and_comm 0xFFFFFFFE, ← UInt32.and_assoc,
      UInt32.and_assoc a, UInt32.and_self]
  rw [hbus] at ha
  rw [hx.onBus]
  have hfirst := words_set hlane hmask ha (value >>> 8).toUInt8 hx.room hstart
    (hclear _ hchunk hwrite)
  have hshape := (map.chunk i).shape_set (a &&& map.addressMask &&& 0xFFFFFFFE)
    (value >>> 8).toUInt8
  generalize (map.chunk i).set (a &&& map.addressMask &&& 0xFFFFFFFE)
    (value >>> 8).toUInt8 = stored at hfirst hshape ⊢
  have hstart' : stored.start = (map.chunk i).start := congrArg ChunkShape.start hshape
  have haccess : stored.access = (map.chunk i).access := congrArg ChunkShape.access hshape
  refine hfirst.trans (words_set (haccess ▸ hlane)
    ((congrArg ChunkShape.mask hshape).trans hmask) ?_ value.toUInt8 hx.room
    (hstart' ▸ hstart) (hclear' _ hchunk hwrite))
  rw [hstart']
  exact UInt32.le_trans ha (le_succ_of_even _)

theorem sameWords_write32 (hx : map.PlainCode x) (value : UInt32)
    (hclear : ∀ b ∈ [a, a + 2], map.Clear x n (b &&& map.addressMask &&& 0xFFFFFFFE) ∧
      map.Clear x n ((b &&& map.addressMask &&& 0xFFFFFFFE) + 1)) :
    SameWords map (map.write32 a value).2 x n ∧
      SameWords map (map.write32LowFirst a value).2 x n := by
  have htwice (b c : UInt32) (hb : b ∈ [a, a + 2]) (hc : c ∈ [a, a + 2]) (v v' : UInt16) :
      SameWords map ((map.write16 b v).2.write16 c v').2 x n := by
    have hshape := map.sameShape_write16 b v
    have hfirst := sameWords_write16 hx v (hclear b hb).1 (hclear b hb).2
    refine hfirst.trans (sameWords_write16 (hx.congr hshape) v' ?_ ?_)
    · rw [hshape.bus]
      exact (hclear c hc).1.congr hshape
    · rw [hshape.bus]
      exact (hclear c hc).2.congr hshape
  have hfirst : a ∈ [a, a + 2] := List.mem_cons_self
  have hsecond : a + 2 ∈ [a, a + 2] := List.mem_cons_of_mem _ (List.mem_singleton_self _)
  exact ⟨htwice a (a + 2) hfirst hsecond _ _, htwice (a + 2) a hsecond hfirst _ _⟩

theorem start_of_findStart? {i : Fin map.chunks.size} (h : map.findStart? start = some i) :
    (map.chunk i).start = start := by
  have hfind : map.chunks.find? (fun chunk => chunk.start == start) = some (map.chunk i) := by
    rw [Array.find?_eq_map_findFinIdx?_getElem, show map.chunks.findFinIdx? _ = some i from h]
    rfl
  have hstart := Array.find?_some hfind
  exact eq_of_beq hstart

theorem selectBank_ok (h : map.selectBank start bank = .ok (some (first, stop), map')) :
    ∃ (i : Fin map.chunks.size) (banks : Array ByteArray) (active : Nat),
      (map.chunk i).start = start ∧ (map.chunk i).backing = .banked banks active ∧
      first = start ∧
      stop = (min (start.toNat + (map.chunk i).period) (map.chunk i).stop.toNat).toUInt32 ∧
      map' = map.modifyChunk i fun chunk => { chunk with backing := .banked banks bank } := by
  unfold selectBank at h
  split at h
  · exact nomatch h
  · rename_i i hfind
    dsimp only at h
    split at h
    · rename_i banks active hbanked
      split at h
      · exact nomatch h
      · split at h
        · exact nomatch (Prod.mk.inj (Except.ok.inj h)).1
        · obtain ⟨hrange, rfl⟩ := Prod.mk.inj (Except.ok.inj h)
          cases hrange
          refine ⟨i, banks, active, start_of_findStart? hfind, hbanked, rfl, rfl, ?_⟩
          rw [modifyChunk, ← set_eq_modify i rfl]
    · exact nomatch h

theorem sameWords_selectBank (h : map.selectBank start bank = .ok (some (first, stop), map'))
    (hother : ∀ chunk, map.chunkAt? x = some chunk → chunk.start ≠ start) :
    SameWords map map' x n := by
  obtain ⟨i, banks, -, hstart, -, -, -, rfl⟩ := selectBank_ok h
  refine sameWords_modifyChunk (fun chunk => ⟨rfl, rfl⟩) fun chunk hi hchunk => ?_
  rw [Array.getElem?_eq_getElem i.isLt, Option.some_inj] at hi
  exact absurd (hi ▸ hstart) (hother chunk hchunk)

end

end MemoryMap

end Dynarec68k
