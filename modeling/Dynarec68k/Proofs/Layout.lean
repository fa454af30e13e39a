import Dynarec68k.Proofs.EmittedCode
import Dynarec68k.Proofs.EntryPages
import Dynarec68k.Proofs.ParallelInstructions

/-!
The layout of compiled code. A store is a list of pieces behind the gates, each the code of one
instruction or of one address without code memory. `Matched` relates two stores that were compiled
from the same guest code under two register assignments: the pieces are the same, only their places
differ, and every branch, entry and waiting link of one store has its counterpart in the other. A
store matched with itself is well formed.
-/

namespace Dynarec68k

open Host List CodeStore

variable {e : (Nat × UInt32) × (Nat × UInt32)} {code code' t t' : CodeBuffer} {i n : Nat}
  {a b : RegisterAssignment} (position : Nat) (f : Fragment) {pairs pairs' : List Pair}
  {s s' : CodeBuffer}

/-- What a piece of code was made from. -/
inductive CodeUnit where
  | instruction (inst : Instruction)
  | missing (address : UInt32)

namespace CodeUnit

def address : CodeUnit → UInt32
  | instruction inst => inst.address
  | missing address => address

/-- The code behind the check of the cycle limit. -/
def body (config : Config) : CodeUnit → Fragment
  | instruction inst => inst.body config
  | missing address => Codegen.load address Role.scratch1 ++ Codegen.service .outOfBounds

/-- Something follows by falling through. -/
def falls : CodeUnit → Bool
  | instruction inst => !inst.isTerminal
  | missing _ => false

def next : CodeUnit → UInt32
  | instruction inst => inst.nextAddress
  | missing address => address

/-- Instructions are such as the decoder gives. -/
def Shaped : CodeUnit → Prop
  | instruction inst => inst.shaped = true ∧ (inst.op = .invalid ∨ inst.apt = true)
  | missing _ => True

theorem body_parallel {u : Bool} (config : Config) {piece : CodeUnit} (hshaped : piece.Shaped) :
    Parallel a b u .loose (piece.body (config.assign a)) (piece.body (config.assign b))
      (if piece.falls then .loose else .stop) := by
  cases piece with
  | instruction inst =>
    cases hterminal : inst.isTerminal with
    | false =>
      simpa [falls, hterminal, body] using (Built.body hshaped.1 hshaped.2).parallel a b
    | true =>
      simpa [falls, hterminal, body] using (Built.body_terminal hshaped.1 hterminal).parallel a b
  | missing address =>
    exact (Parallel.load_first address).append (.asks (.leave rfl (fun _ => rfl) fun _ => rfl) rfl)

theorem decode_shaped (model : Model) (address : UInt32) (words : List UInt16) :
    (CodeUnit.instruction (Instruction.decode model address words)).Shaped :=
  ⟨Instruction.decode_shaped _ _ _, Instruction.decode_apt _ _ _⟩

end CodeUnit

/-- The places of one unit in two code buffers. -/
structure Pair where
  left : Nat
  right : Nat
  unit : CodeUnit

/-- The code of one unit, in two code buffers. -/
structure Piece extends Pair where
  /-- A jump to what follows stands behind the code. -/
  tailed : Bool

namespace Piece

/-- What stands behind the four operations of the head. -/
def rest (piece : Piece) (config : Config) : Fragment :=
  piece.unit.body config ++ if piece.tailed then [.goto piece.unit.next] else []

/-- Positions taken. -/
def size (piece : Piece) (config : Config) : Nat :=
  4 + (piece.rest config).length

/-- What follows is reached by falling out of the piece. -/
def falls (piece : Piece) : Bool :=
  piece.unit.falls && !piece.tailed

end Piece

namespace Fragment

/-- Positions and targets of the jumps of a fragment, the first position being `position`. -/
def gotos (position : Nat) : Fragment → List (Nat × UInt32)
  | [] => []
  | .goto target :: rest => (position, target) :: gotos (position + 1) rest
  | .op _ :: rest => gotos (position + 1) rest
  | .call _ :: rest => gotos (position + 1) rest

theorem gotos_append (f g : Fragment) :
    gotos position (f ++ g) = gotos position f ++ gotos (position + f.length) g := by
  induction f generalizing position with
  | nil => simp [gotos]
  | cons item rest ih =>
    have hlength : position + 1 + rest.length = position + (rest.length + 1) := by omega
    cases item <;> simp [gotos, ih, hlength]

theorem gotos_targets : (gotos position f).map Prod.snd = targets f := by
  induction f generalizing position with
  | nil => rfl
  | cons item rest ih =>
    cases item <;> simp [gotos, ih]

theorem mem_gotos {position : Nat} {f : Fragment} {x : UInt32} :
    (i, x) ∈ gotos position f ↔ position ≤ i ∧ f[i - position]? = some (.goto x) := by
  induction f generalizing position with
  | nil => simp [gotos]
  | cons item rest ih =>
    -- The first position is the item's own, later ones are positions of the rest.
    rcases Nat.lt_trichotomy i position with hlt | rfl | hgt
    · have hnot : ¬position ≤ i := by omega
      have hnot' : ¬position + 1 ≤ i := by omega
      cases item <;> simp [gotos, ih, hnot, hnot', Nat.ne_of_lt hlt]
    · have hnot : ¬i + 1 ≤ i := by omega
      cases item <;> simp [gotos, ih, hnot, eq_comm]
    · have hle : position ≤ i := by omega
      have hle' : position + 1 ≤ i := by omega
      have hindex : i - position = i - (position + 1) + 1 := by omega
      cases item <;> simp [gotos, ih, hle, hle', hindex, Nat.ne_of_gt hgt]

end Fragment

namespace EntryTable

theorem waits_eq (entries : EntryTable) (canonical : UInt32 → UInt32) (position : Nat)
    (fragment : Fragment) :
    entries.waits canonical position fragment =
      ((Fragment.gotos position fragment).filter fun e =>
        (entries.lookup (canonical e.2)).isNone).map fun e =>
          ⟨canonical e.2, e.1.toUInt32⟩ := by
  induction fragment generalizing position with
  | nil => rfl
  | cons item rest ih =>
    cases item with
    | op => simp [waits, waitOf, Fragment.gotos, ih]
    | call => simp [waits, waitOf, Fragment.gotos, ih]
    | goto target =>
      cases hlookup : entries.lookup (canonical target) <;>
        simp [waits, waitOf, Fragment.gotos, ih, hlookup]

end EntryTable

namespace Host.CodeBuffer

/-- A jump to position `m` stands at position `n`. -/
def JumpsTo (code : CodeBuffer) (n m : Nat) : Prop :=
  code.ops[n]? = some (.jump (relativeTo n.toUInt32 m.toUInt32))

/-- A position holds what an item becomes; where its jumps go is another matter. -/
def Holds (code : CodeBuffer) (n : Nat) : Item → Prop
  | .op op => code.ops[n]? = some op
  | .call gate => code.ops[n]? = some (.call (relativeTo n.toUInt32 gate.entry))
  | .goto _ => ∃ rel, code.ops[n]? = some (.jump rel)

/-- The second operation of an entry tells what kind of entry it is, and with it stands the
first. -/
def opening (kind : EntryKind) (n : Nat) (address : UInt32) : Host.Op × Host.Op :=
  match kind with
  | .boundary => (.alu .cmp (.reg Role.limit) (.reg Role.cycles) .long, .jumpIf .below 2)
  | .redirected =>
    (.mov (.imm address) (.reg Role.scratch1) .long,
      .jump (relativeTo (n + 1).toUInt32 Gate.refresh.entry))
  | .breakpoint =>
    (.mov (.imm address) (.reg Role.scratch1) .long,
      .call (relativeTo (n + 1).toUInt32 Gate.breakpoint.entry))

/-- The head of a piece at position `n`. Its first operation may have become a jump to newer code
of the same instruction. -/
structure HeadAt (code : CodeBuffer) (n : Nat) (kind : EntryKind) (opened checked : UInt32)
    (moved : Option Nat) : Prop where
  first : match moved with
    | none => code.ops[n]? = some (opening kind n opened).1
    | some m => code.JumpsTo n m
  second : code.ops[n + 1]? = some (opening kind n opened).2
  third : code.ops[n + 2]? = some (.mov (.imm checked) (.reg Role.scratch1) .long)
  fourth : code.ops[n + 3]? =
    some (.call (relativeTo (n + 3).toUInt32 Gate.synchronize.entry))

theorem Holds.congr {item : Item} (heq : code'.ops[n]? = code.ops[n]?) (h : code.Holds n item) :
    code'.Holds n item := by
  cases item with
  | op op => exact heq.trans h
  | call gate => exact heq.trans h
  | goto x => exact h.imp fun _ hrel => heq.trans hrel

theorem HeadAt.congr {kind : EntryKind} {opened checked : UInt32} {moved : Option Nat}
    (heq : ∀ i < 4, code'.ops[n + i]? = code.ops[n + i]?)
    (h : code.HeadAt n kind opened checked moved) : code'.HeadAt n kind opened checked moved where
  first := by
    have hfirst := h.first
    have hzero : code'.ops[n]? = code.ops[n]? := heq 0 (by omega)
    cases moved with
    | none => exact hzero.trans hfirst
    | some m => exact hzero.trans hfirst
  second := (heq 1 (by omega)).trans h.second
  third := (heq 2 (by omega)).trans h.third
  fourth := (heq 3 (by omega)).trans h.fourth

/-- Two buffers differ at most from position `n` to position `m`. -/
structure SameOutside (code : CodeBuffer) (n m : Nat) (code' : CodeBuffer) : Prop where
  cursor : code'.cursor = code.cursor
  size : code'.ops.size = code.ops.size
  outside : ∀ i, i < n ∨ m ≤ i → code'.ops[i]? = code.ops[i]?

end Host.CodeBuffer

/-- Positions, and the distances between them, fit into the words that hold them. -/
def CodeStore.Fits (store : CodeStore) : Prop :=
  store.code.ops.size < 2 ^ 31

/-- The part of a layout that concerns one store: the gates, and behind them pieces that do not
overlap, newest first. -/
structure Laid (config : Config) (site : Piece → Nat) (pieces : List Piece) (store : CodeStore) :
    Prop where
  cursor : store.code.cursor = none
  room : store.code.ops.size < 2 ^ 31
  based : store.entries.pages.Based store.code.ops.size
  gates : ∀ (i : Nat) op, Gate.code[i]? = some op → store.code.ops[i]? = some op
  above : ∀ p ∈ pieces, Gate.code.length ≤ site p
  within : ∀ p ∈ pieces, site p + p.size config ≤ store.code.ops.size
  apart : pieces.Pairwise fun p q => site q + q.size config ≤ site p
  placed : ∀ p ∈ pieces, ∀ (i : Nat) item, (p.rest config)[i]? = some item →
    store.code.Holds (site p + 4 + i) item
  /-- Calls can be traced back to the instruction they belong to. -/
  origin : ∀ p ∈ pieces, ∀ inst, p.unit = .instruction inst →
    ∀ i < 4 + (inst.body config).length,
      store.entries.origin? (site p + i).toUInt32 = some inst.address
  /-- The code of an instruction starts where one is recorded. -/
  listed : ∀ p ∈ pieces, ∀ inst, p.unit = .instruction inst →
    ((site p).toUInt32, inst.address) ∈ store.entries.origins
  /-- No instruction starts elsewhere. -/
  recorded : ∀ e ∈ store.entries.origins, ∃ p ∈ pieces, ∃ inst, p.unit = .instruction inst ∧
    e = ((site p).toUInt32, inst.address)

/-- A branch that waits in both stores. -/
structure Wait where
  target : UInt32
  left : Nat
  right : Nat

namespace Wait

def leftLink (wait : Wait) : PendingLink :=
  ⟨wait.target, wait.left.toUInt32⟩

def rightLink (wait : Wait) : PendingLink :=
  ⟨wait.target, wait.right.toUInt32⟩

end Wait

/-- What is known about one guest word is the same in both stores, up to places. -/
inductive SlotsAgree (pairs : List Pair) (word : UInt32) : Option Slot → Option Slot → Prop where
  | none : SlotsAgree pairs word none none
  | continuation : SlotsAgree pairs word (some .continuation) (some .continuation)
  | entry {p : Pair} (hp : p ∈ pairs) (hword : p.unit.address >>> 1 = word) :
      SlotsAgree pairs word (some (.entry p.left.toUInt32)) (some (.entry p.right.toUInt32))

/-- Heads of the same kind, naming the same addresses; if one was moved, so was the other. -/
def HeadsAgree (pairs : List Pair) (p : Pair) (s t : CodeBuffer) : Prop :=
  ∃ kind opened checked,
    (s.HeadAt p.left kind opened checked none ∧ t.HeadAt p.right kind opened checked none) ∨
      ∃ q ∈ pairs, s.HeadAt p.left kind opened checked (some q.left) ∧
        t.HeadAt p.right kind opened checked (some q.right)

theorem HeadsAgree.congr {p : Pair} (h : HeadsAgree pairs p s t) (hpairs : ∀ q ∈ pairs, q ∈ pairs')
    (hs : ∀ i < 4, s'.ops[p.left + i]? = s.ops[p.left + i]?)
    (ht : ∀ i < 4, t'.ops[p.right + i]? = t.ops[p.right + i]?) : HeadsAgree pairs' p s' t' := by
  obtain ⟨kind, opened, checked, hagree⟩ := h
  refine ⟨kind, opened, checked, ?_⟩
  rcases hagree with ⟨hl, hr⟩ | ⟨q, hq, hl, hr⟩
  · exact .inl ⟨hl.congr hs, hr.congr ht⟩
  · exact .inr ⟨q, hpairs q hq, hl.congr hs, hr.congr ht⟩

/-- A jump goes to the same unit in both stores, or waits in both. -/
def LinksAgree (leads : UInt32 → UInt32 → Prop) (pairs : List Pair) (waits : List Wait)
    (e : (Nat × UInt32) × (Nat × UInt32)) (s t : CodeBuffer) : Prop :=
  (∃ q ∈ pairs, leads e.1.2 (q.unit.address >>> 1) ∧
    s.JumpsTo e.1.1 q.left ∧ t.JumpsTo e.2.1 q.right) ∨
  ∃ w ∈ waits, w.left = e.1.1 ∧ w.right = e.2.1

theorem LinksAgree.congr {leads : UInt32 → UInt32 → Prop} {waits waits' : List Wait}
    (h : LinksAgree leads pairs waits e s t) (hpairs : ∀ q ∈ pairs, q ∈ pairs')
    (hwaits : ∀ w ∈ waits, w.left = e.1.1 → w ∈ waits')
    (hs : s.ops[e.1.1]? ≠ none → s'.ops[e.1.1]? = s.ops[e.1.1]?)
    (ht : t.ops[e.2.1]? ≠ none → t'.ops[e.2.1]? = t.ops[e.2.1]?) :
    LinksAgree leads pairs' waits' e s' t' := by
  rcases h with ⟨q, hq, hlead, hl, hr⟩ | ⟨w, hw, hl, hr⟩
  · refine .inl ⟨q, hpairs q hq, hlead, (hs ?_).trans hl, (ht ?_).trans hr⟩
    · rw [CodeBuffer.JumpsTo] at hl
      rw [hl]
      exact nofun
    · rw [CodeBuffer.JumpsTo] at hr
      rw [hr]
      exact nofun
  · exact .inr ⟨w, hwaits w hw hl, hl, hr⟩

namespace GuestView

/-- The same view of guest memory with another register assignment. -/
def assign (view : GuestView) (assignment : RegisterAssignment) : GuestView :=
  { view with config := view.config.assign assignment }

end GuestView

namespace Piece

/-- The jumps of a piece, as they stand in two stores. -/
def jumps (p : Piece) (config : Config) (a b : RegisterAssignment) :
    List ((Nat × UInt32) × (Nat × UInt32)) :=
  (Fragment.gotos (p.left + 4) (p.rest (config.assign a))).zip
    (Fragment.gotos (p.right + 4) (p.rest (config.assign b)))

end Piece

/-- Two stores hold the same pieces. `leads` says which guest words the code of an address may
belong to, `gap` is the unit whose end is still open, and `waits` are the branches that wait. -/
structure Matched (view : GuestView) (a b : RegisterAssignment) (leads : UInt32 → UInt32 → Prop)
    (gap : Option CodeUnit) (pieces : List Piece) (waits : List Wait) (s t : CodeStore) :
    Prop where
  left : Laid (view.config.assign a) (·.left) pieces s
  right : Laid (view.config.assign b) (·.right) pieces t
  shaped : ∀ p ∈ pieces, p.unit.Shaped
  regions : s.regions = t.regions
  endless : s.endless = t.endless
  slots : ∀ word, SlotsAgree (pieces.map Piece.toPair) word (s.entries.pages.slotAt word)
    (t.entries.pages.slotAt word)
  heads : ∀ p ∈ pieces, HeadsAgree (pieces.map Piece.toPair) p.toPair s.code t.code
  links : ∀ p ∈ pieces, ∀ e ∈ p.jumps view.config a b,
    LinksAgree leads (pieces.map Piece.toPair) waits e s.code t.code
  tails : ∀ p ∈ pieces, p.falls = true →
    (∃ q ∈ pieces.map Piece.toPair, leads p.unit.next (q.unit.address >>> 1) ∧
      q.left = p.left + p.size (view.config.assign a) ∧
      q.right = p.right + p.size (view.config.assign b)) ∨
    gap = some p.unit ∧ s.code.ops.size = p.left + p.size (view.config.assign a) ∧
      t.code.ops.size = p.right + p.size (view.config.assign b)
  pendingLeft : s.pending.toList = waits.map Wait.leftLink
  pendingRight : t.pending.toList = waits.map Wait.rightLink
  waiting : ∀ w ∈ waits, ∃ p ∈ pieces, ∃ e ∈ p.jumps view.config a b,
    w.left = e.1.1 ∧ w.right = e.2.1 ∧ leads e.1.2 (w.target >>> 1)
  settled : ∀ w ∈ waits, view.canonical w.target = w.target

theorem pairwise_cases {α : Type} {R : α → α → Prop} {list : List α} (h : list.Pairwise R)
    {x y : α} (hx : x ∈ list) (hy : y ∈ list) : x = y ∨ R x y ∨ R y x := by
  induction h with
  | nil => exact absurd hx not_mem_nil
  | cons hhead _ ih =>
    rcases mem_cons.mp hx with rfl | hx'
    · rcases mem_cons.mp hy with rfl | hy'
      · exact .inl rfl
      · exact .inr (.inl (hhead y hy'))
    · rcases mem_cons.mp hy with rfl | hy'
      · exact .inr (.inr (hhead x hx'))
      · exact ih hx' hy'

namespace Fragment

theorem gotos_pairwise : (gotos position f).Pairwise fun e e' => e.1 < e'.1 := by
  induction f generalizing position with
  | nil => exact .nil
  | cons item rest ih =>
    cases item with
    | op => exact ih _
    | call => exact ih _
    | goto x =>
      refine .cons (fun e he => ?_) (ih _)
      obtain ⟨i, y⟩ := e
      exact (mem_gotos.mp he).1

end Fragment

theorem zip_pairwise {α β : Type} {R : α → α → Prop} {S : β → β → Prop} {l : List α} {r : List β}
    (hl : l.Pairwise R) (hr : r.Pairwise S) :
    (l.zip r).Pairwise fun e e' => R e.1 e'.1 ∧ S e.2 e'.2 := by
  induction hl generalizing r with
  | nil => exact .nil
  | cons hhead _ ih =>
    cases hr with
    | nil => exact .nil
    | cons hhead' htail' =>
      refine .cons (fun e he => ?_) (ih htail')
      obtain ⟨hx, hy⟩ := of_mem_zip he
      exact ⟨hhead e.1 hx, hhead' e.2 hy⟩

namespace Piece

variable {p : Piece} {config : Config}

theorem jumps_left (he : e ∈ p.jumps config a b) :
    ∃ i, e.1.1 = p.left + 4 + i ∧ (p.rest (config.assign a))[i]? = some (.goto e.1.2) := by
  obtain ⟨⟨n, x⟩, e'⟩ := e
  obtain ⟨hle, hitem⟩ := Fragment.mem_gotos.mp (of_mem_zip he).1
  exact ⟨n - (p.left + 4), (Nat.add_sub_cancel' hle).symm, hitem⟩

theorem jumps_right (he : e ∈ p.jumps config a b) :
    ∃ i, e.2.1 = p.right + 4 + i ∧ (p.rest (config.assign b))[i]? = some (.goto e.2.2) := by
  obtain ⟨e', n, x⟩ := e
  obtain ⟨hle, hitem⟩ := Fragment.mem_gotos.mp (of_mem_zip he).2
  exact ⟨n - (p.right + 4), (Nat.add_sub_cancel' hle).symm, hitem⟩

theorem jumps_cases {e' : (Nat × UInt32) × (Nat × UInt32)} (he : e ∈ p.jumps config a b)
    (he' : e' ∈ p.jumps config a b) : e = e' ∨ e.1.1 ≠ e'.1.1 ∧ e.2.1 ≠ e'.2.1 := by
  rcases pairwise_cases
    (zip_pairwise (Fragment.gotos_pairwise _ _) (Fragment.gotos_pairwise _ _)) he he' with
    heq | ⟨hl, hr⟩ | ⟨hl, hr⟩
  · exact .inl heq
  · exact .inr ⟨by omega, by omega⟩
  · exact .inr ⟨by omega, by omega⟩

end Piece

namespace Laid

variable {config : Config} {site : Piece → Nat} {pieces : List Piece} {s : CodeStore}
  {p q : Piece}

variable (h : Laid config site pieces s)
include h

theorem disjoint (hp : p ∈ pieces) (hq : q ∈ pieces) :
    p = q ∨ site q + q.size config ≤ site p ∨ site p + p.size config ≤ site q :=
  pairwise_cases h.apart hp hq

theorem behind_head (hp : p ∈ pieces) (hq : q ∈ pieces) (hi : i < (p.rest config).length) :
    site p + 4 + i < site q ∨ site q + 4 ≤ site p + 4 + i := by
  rcases h.disjoint hp hq with rfl | hle | hle
  · omega
  · unfold Piece.size at hle
    omega
  · unfold Piece.size at hle
    omega

theorem head_apart (hp : p ∈ pieces) (hq : q ∈ pieces) (hne : p ≠ q) (hi : i < 4) :
    site p + i < site q ∨ site q + 4 ≤ site p + i := by
  rcases h.disjoint hp hq with heq | hle | hle
  · exact absurd heq hne
  · unfold Piece.size at hle
    omega
  · unfold Piece.size at hle
    omega

theorem rest_apart (hp : p ∈ pieces) (hq : q ∈ pieces) (hne : p ≠ q) {j : Nat}
    (hi : i < (p.rest config).length) (hj : j < (q.rest config).length) :
    site p + 4 + i ≠ site q + 4 + j := by
  rcases h.disjoint hp hq with heq | hle | hle
  · exact absurd heq hne
  · unfold Piece.size at hle
    omega
  · unfold Piece.size at hle
    omega

theorem recode (hcursor : code.cursor = none) (hsize : code.ops.size = s.code.ops.size)
    (hgates : ∀ i < Gate.code.length, code.ops[i]? = s.code.ops[i]?)
    (hplaced : ∀ p ∈ pieces, ∀ (i : Nat) item, (p.rest config)[i]? = some item →
      s.code.Holds (site p + 4 + i) item → code.Holds (site p + 4 + i) item) :
    Laid config site pieces { s with code := code } where
  cursor := hcursor
  room := hsize ▸ h.room
  based := hsize ▸ h.based
  gates i op hop := by
    obtain ⟨hi, -⟩ := List.getElem?_eq_some_iff.mp hop
    exact (hgates i hi).trans (h.gates i op hop)
  above := h.above
  within p hp := hsize ▸ h.within p hp
  apart := h.apart
  placed p hp i item hitem := hplaced p hp i item hitem (h.placed p hp i item hitem)
  origin := h.origin
  listed := h.listed
  recorded := h.recorded

theorem congr {s' : CodeStore} (hcode : s'.code = s.code) (hentries : s'.entries = s.entries) :
    Laid config site pieces s' where
  cursor := hcode ▸ h.cursor
  room := hcode ▸ h.room
  based := hcode ▸ hentries ▸ h.based
  gates := hcode ▸ h.gates
  above := h.above
  within := hcode ▸ h.within
  apart := h.apart
  placed := hcode ▸ h.placed
  origin := hentries ▸ h.origin
  listed := hentries ▸ h.listed
  recorded := hentries ▸ h.recorded

theorem patchHead (hp : p ∈ pieces) (hcode : s.code.SameOutside (site p) (site p + 4) code) :
    Laid config site pieces { s with code := code } := by
  refine h.recode (hcode.cursor.trans h.cursor) hcode.size (fun i hi => ?_)
    fun q hq i item hitem hholds => ?_
  · exact hcode.outside i (.inl (Nat.lt_of_lt_of_le hi (h.above p hp)))
  · obtain ⟨hi, -⟩ := List.getElem?_eq_some_iff.mp hitem
    exact hholds.congr (hcode.outside _ (h.behind_head hq hp hi))

theorem patchJump (hp : p ∈ pieces) {x : UInt32} (hgoto : (p.rest config)[i]? = some (.goto x))
    (hcode : s.code.SameOutside (site p + 4 + i) (site p + 4 + i + 1) code) {rel : Int32}
    (hjump : code.ops[site p + 4 + i]? = some (.jump rel)) :
    Laid config site pieces { s with code := code } := by
  obtain ⟨hi, -⟩ := List.getElem?_eq_some_iff.mp hgoto
  refine h.recode (hcode.cursor.trans h.cursor) hcode.size (fun k hk => ?_)
    fun q hq j item hitem hholds => ?_
  · have habove := h.above p hp
    exact hcode.outside k (.inl (by omega))
  · obtain ⟨hj, -⟩ := List.getElem?_eq_some_iff.mp hitem
    by_cases hsame : site q + 4 + j = site p + 4 + i
    · -- Only the jump itself stands there.
      have hpq : q = p := by
        by_contra hne
        exact h.rest_apart hq hp hne hj hi hsame
      subst hpq
      obtain rfl : j = i := by omega
      rw [hgoto, Option.some.injEq] at hitem
      subst hitem
      exact ⟨rel, hjump⟩
    · exact hholds.congr (hcode.outside _ (by omega))

theorem patchBranch (hp : p ∈ pieces) {x : UInt32} (hgoto : (p.rest config)[i]? = some (.goto x))
    (m : Nat) :
    s.code.SameOutside (site p + 4 + i) (site p + 4 + i + 1)
        (s.code.patchBranch (site p + 4 + i).toUInt32 m.toUInt32) ∧
      (s.code.patchBranch (site p + 4 + i).toUInt32 m.toUInt32).JumpsTo (site p + 4 + i) m := by
  obtain ⟨rel, hrel⟩ := h.placed p hp i _ hgoto
  obtain ⟨hi, -⟩ := Array.getElem?_eq_some_iff.mp hrel
  obtain ⟨⟨hsize, hinside, houtside⟩, hcursor⟩ :=
    CodeBuffer.patchBranch_overwritten (by have := h.room; omega) hrel m.toUInt32
  exact ⟨⟨hcursor, hsize, houtside⟩, hinside 0 Nat.one_pos⟩

end Laid

namespace Matched

variable {view : GuestView} {leads : UInt32 → UInt32 → Prop}
  {gap : Option CodeUnit} {pieces : List Piece} {waits : List Wait} {s t : CodeStore}

section

variable (h : Matched view a b leads gap pieces waits s t) {p q : Piece}
include h

theorem congr (s' t' : CodeStore)
    (hs : s'.code = s.code ∧ s'.entries = s.entries ∧ s'.pending = s.pending ∧
      s'.regions = s.regions ∧ s'.endless = s.endless)
    (ht : t'.code = t.code ∧ t'.entries = t.entries ∧ t'.pending = t.pending ∧
      t'.regions = t.regions ∧ t'.endless = t.endless) :
    Matched view a b leads gap pieces waits s' t' := by
  obtain ⟨code, entries, pending, regions, counters, endless⟩ := s
  obtain ⟨code', entries', pending', regions', counters', endless'⟩ := s'
  obtain ⟨codeR, entriesR, pendingR, regionsR, countersR, endlessR⟩ := t
  obtain ⟨codeR', entriesR', pendingR', regionsR', countersR', endlessR'⟩ := t'
  obtain ⟨rfl, rfl, rfl, rfl, rfl⟩ := hs
  obtain ⟨rfl, rfl, rfl, rfl, rfl⟩ := ht
  exact ⟨h.left.congr rfl rfl, h.right.congr rfl rfl, h.shaped, h.regions, h.endless, h.slots,
    h.heads, h.links, h.tails, h.pendingLeft, h.pendingRight, h.waiting, h.settled⟩

theorem lookup (x : UInt32) :
    (s.lookup x = none ∧ t.lookup x = none) ∨
      ∃ p ∈ pieces.map Piece.toPair, p.unit.address >>> 1 = x >>> 1 ∧ x &&& 1 = 0 ∧
        s.lookup x = some p.left.toUInt32 ∧ t.lookup x = some p.right.toUInt32 := by
  have hslots := h.slots (x >>> 1)
  simp only [CodeStore.lookup, EntryTable.lookup, EntryTable.slot?]
  generalize s.entries.pages.slotAt (x >>> 1) = left at hslots
  generalize t.entries.pages.slotAt (x >>> 1) = right at hslots
  by_cases heven : x &&& 1 = 0
  · simp only [heven, if_true]
    cases hslots with
    | none => exact .inl ⟨rfl, rfl⟩
    | continuation => exact .inl ⟨rfl, rfl⟩
    | entry hp hword => exact .inr ⟨_, hp, hword, trivial, rfl, rfl⟩
  · simp only [heven, if_false]
    exact .inl ⟨trivial, trivial⟩

theorem lookup_isNone (x : UInt32) : (s.lookup x).isNone = (t.lookup x).isNone := by
  rcases h.lookup x with ⟨hs, ht⟩ | ⟨p, -, -, -, hs, ht⟩
  · rw [hs, ht]
  · rw [hs, ht]
    rfl

theorem jumps_behind_left (hp : p ∈ pieces) (hq : q ∈ pieces) (he : e ∈ p.jumps view.config a b) :
    e.1.1 < q.left ∨ q.left + 4 ≤ e.1.1 := by
  obtain ⟨i, hi, hitem⟩ := Piece.jumps_left he
  obtain ⟨hlt, -⟩ := List.getElem?_eq_some_iff.mp hitem
  exact hi ▸ h.left.behind_head hp hq hlt

theorem jumps_behind_right (hp : p ∈ pieces) (hq : q ∈ pieces) (he : e ∈ p.jumps view.config a b) :
    e.2.1 < q.right ∨ q.right + 4 ≤ e.2.1 := by
  obtain ⟨i, hi, hitem⟩ := Piece.jumps_right he
  obtain ⟨hlt, -⟩ := List.getElem?_eq_some_iff.mp hitem
  exact hi ▸ h.right.behind_head hp hq hlt

theorem patchHead (hp : p ∈ pieces) {c d : CodeBuffer}
    (hc : s.code.SameOutside p.left (p.left + 4) c)
    (hd : t.code.SameOutside p.right (p.right + 4) d)
    (hheads : HeadsAgree (pieces.map Piece.toPair) p.toPair c d) :
    Matched view a b leads gap pieces waits { s with code := c } { t with code := d } where
  left := h.left.patchHead hp hc
  right := h.right.patchHead hp hd
  shaped := h.shaped
  regions := h.regions
  endless := h.endless
  slots := h.slots
  heads q hq := by
    by_cases hqp : q = p
    · exact hqp ▸ hheads
    · exact (h.heads q hq).congr (fun _ hr => hr)
        (fun i hi => hc.outside _ (h.left.head_apart hq hp hqp hi))
        fun i hi => hd.outside _ (h.right.head_apart hq hp hqp hi)
  links q hq e he :=
    (h.links q hq e he).congr (fun _ hr => hr) (fun _ hw _ => hw)
      (fun _ => hc.outside _ (h.jumps_behind_left hq hp he))
      fun _ => hd.outside _ (h.jumps_behind_right hq hp he)
  tails q hq hfalls := by
    refine (h.tails q hq hfalls).imp_right ?_
    rintro ⟨hgap, hs, ht⟩
    exact ⟨hgap, hc.size.trans hs, hd.size.trans ht⟩
  pendingLeft := h.pendingLeft
  pendingRight := h.pendingRight
  waiting := h.waiting
  settled := h.settled

theorem jumps_apart (hp : p ∈ pieces) (hq : q ∈ pieces) {f : (Nat × UInt32) × (Nat × UInt32)}
    (he : e ∈ p.jumps view.config a b) (hf : f ∈ q.jumps view.config a b) :
    e = f ∨ e.1.1 ≠ f.1.1 ∧ e.2.1 ≠ f.2.1 := by
  by_cases hpq : p = q
  · subst hpq
    exact Piece.jumps_cases he hf
  · obtain ⟨i, hi, hei⟩ := Piece.jumps_left he
    obtain ⟨j, hj, hfj⟩ := Piece.jumps_left hf
    obtain ⟨k, hk, hek⟩ := Piece.jumps_right he
    obtain ⟨l, hl, hfl⟩ := Piece.jumps_right hf
    rw [hi, hj, hk, hl]
    exact .inr ⟨h.left.rest_apart hp hq hpq (List.getElem?_eq_some_iff.mp hei).1
        (List.getElem?_eq_some_iff.mp hfj).1,
      h.right.rest_apart hp hq hpq (List.getElem?_eq_some_iff.mp hek).1
        (List.getElem?_eq_some_iff.mp hfl).1⟩

theorem linkWait {w : Wait} (hw : w ∈ waits) {q : Pair} (hq : q ∈ pieces.map Piece.toPair)
    (hword : q.unit.address >>> 1 = w.target >>> 1) (remaining : List Wait)
    (hsub : ∀ v ∈ remaining, v ∈ waits) (hrest : ∀ v ∈ waits, v = w ∨ v ∈ remaining) :
    Matched view a b leads gap pieces remaining
      { s with
        code := s.code.patchBranch w.left.toUInt32 q.left.toUInt32
        pending := (remaining.map Wait.leftLink).toArray }
      { t with
        code := t.code.patchBranch w.right.toUInt32 q.right.toUInt32
        pending := (remaining.map Wait.rightLink).toArray } := by
  obtain ⟨p, hp, e, he, hwl, hwr, hleads⟩ := h.waiting w hw
  obtain ⟨i, hi, hitem⟩ := Piece.jumps_left he
  obtain ⟨j, hj, hitem'⟩ := Piece.jumps_right he
  obtain ⟨hc, hcjump⟩ := h.left.patchBranch hp hitem q.left
  obtain ⟨hd, hdjump⟩ := h.right.patchBranch hp hitem' q.right
  have hleft := h.left.patchJump hp hitem hc hcjump
  have hright := h.right.patchJump hp hitem' hd hdjump
  rw [← hi, ← hwl] at hc hcjump hleft
  rw [← hj, ← hwr] at hd hdjump hright
  exact {
    left := hleft.congr rfl rfl
    right := hright.congr rfl rfl
    shaped := h.shaped
    regions := h.regions
    endless := h.endless
    slots := h.slots
    heads := by
      intro r hr
      have hleft := h.jumps_behind_left hp hr he
      have hright := h.jumps_behind_right hp hr he
      exact (h.heads r hr).congr (fun _ hq => hq) (fun k hk => hc.outside _ (by omega))
        fun k hk => hd.outside _ (by omega)
    links := by
      intro r hr f hf
      rcases h.jumps_apart hr hp hf he with rfl | ⟨hne, hne'⟩
      · exact .inl ⟨q, hq, hword ▸ hleads, hwl ▸ hcjump, hwr ▸ hdjump⟩
      · refine (h.links r hr f hf).congr (fun _ hm => hm) (fun v hv hvl => ?_)
          (fun _ => hc.outside _ (by omega)) fun _ => hd.outside _ (by omega)
        rcases hrest v hv with rfl | hv'
        · exact absurd (hvl.symm.trans hwl) hne
        · exact hv'
    tails := by
      intro r hr hfalls
      refine (h.tails r hr hfalls).imp_right ?_
      rintro ⟨hgap, hs, ht⟩
      exact ⟨hgap, hc.size.trans hs, hd.size.trans ht⟩
    pendingLeft := rfl
    pendingRight := rfl
    waiting := fun v hv => h.waiting v (hsub v hv)
    settled := fun v hv => h.settled v (hsub v hv) }

end

/-- Linking goes through the waiting branches; `kept` are those gone through that still wait. -/
theorem linkWaits (rest kept : List Wait)
    (h : Matched view a b leads gap pieces (kept ++ rest) s t)
    (hkept : ∀ w ∈ kept, (s.lookup w.target).isNone = true) :
    Matched view a b leads gap pieces
      ((kept ++ rest).filter fun w => (s.lookup w.target).isNone)
      { s with
        code := linkAll s.entries (rest.map Wait.leftLink).toArray s.code
        pending := (((kept ++ rest).filter fun w => (s.lookup w.target).isNone).map
          Wait.leftLink).toArray }
      { t with
        code := linkAll t.entries (rest.map Wait.rightLink).toArray t.code
        pending := (((kept ++ rest).filter fun w => (s.lookup w.target).isNone).map
          Wait.rightLink).toArray } := by
  induction rest generalizing kept s t with
  | nil =>
    have hfilter : (kept ++ []).filter (fun w => (s.lookup w.target).isNone) = kept := by
      rw [append_nil]
      exact filter_eq_self.mpr hkept
    rw [hfilter]
    rw [append_nil] at h
    refine h.congr _ _ ⟨rfl, rfl, ?_, rfl, rfl⟩ ⟨rfl, rfl, ?_, rfl, rfl⟩
    · exact congrArg toArray h.pendingLeft.symm
    · exact congrArg toArray h.pendingRight.symm
  | cons w rest ih =>
    rcases h.lookup w.target with ⟨hs, ht⟩ | ⟨q, hq, hword, -, hs, ht⟩
    · -- The branch goes on waiting.
      have hkept' : ∀ v ∈ kept ++ [w], (s.lookup v.target).isNone = true := by
        intro v hv
        rcases mem_append.mp hv with hv | hv
        · exact hkept v hv
        · rw [mem_singleton.mp hv, hs]
          rfl
      have hnext := ih (kept ++ [w]) (by simpa using h) hkept'
      simp only [append_assoc, singleton_append] at hnext
      have hstep (entries : EntryTable) (link : PendingLink) (links : List PendingLink)
          (code : CodeBuffer) (hnone : entries.lookup link.target = none) :
          linkAll entries (link :: links).toArray code =
            linkAll entries links.toArray code := by
        simp [linkAll, hnone]
      rw [map_cons, map_cons, hstep s.entries w.leftLink _ _ hs,
        hstep t.entries w.rightLink _ _ ht]
      exact hnext
    · have hstep (entries : EntryTable) (link : PendingLink) (links : List PendingLink)
          (code : CodeBuffer) (native : CodePtr)
          (hsome : entries.lookup link.target = some native) :
          linkAll entries (link :: links).toArray code =
            linkAll entries links.toArray (code.patchBranch link.site native) := by
        simp [linkAll, hsome]
      have hlinked := h.linkWait (w := w) (by simp) hq hword (kept ++ rest)
        (by simp only [mem_append, mem_cons]; tauto)
        (by simp only [mem_append, mem_cons]; tauto)
      have hnext := ih kept hlinked hkept
      have hfilter : (kept ++ w :: rest).filter (fun w => (s.lookup w.target).isNone) =
          (kept ++ rest).filter (fun w => (s.lookup w.target).isNone) := by
        simp [hs]
      rw [hfilter, map_cons, map_cons, hstep s.entries w.leftLink _ _ _ hs,
        hstep t.entries w.rightLink _ _ _ ht]
      exact hnext

theorem linkPending (h : Matched view a b leads gap pieces waits s t) :
    Matched view a b leads gap pieces (waits.filter fun w => (s.lookup w.target).isNone)
      s.linkPending t.linkPending := by
  have hlinked := linkWaits waits [] h (forall_mem_nil _)
  have hs : s.pending = (waits.map Wait.leftLink).toArray := by
    rw [← h.pendingLeft]
  have ht : t.pending = (waits.map Wait.rightLink).toArray := by
    rw [← h.pendingRight]
  have hnone : (fun w : Wait => (s.lookup w.target).isNone) =
      fun w : Wait => (t.lookup w.target).isNone :=
    funext fun w => h.lookup_isNone w.target
  refine hlinked.congr _ _ ⟨?_, rfl, ?_, rfl, rfl⟩ ⟨?_, rfl, ?_, rfl, rfl⟩
  · rw [← hs]
    rfl
  · change s.pending.filter _ = _
    rw [hs, filter_toArray, filter_map]
    rfl
  · rw [← ht]
    rfl
  · change t.pending.filter _ = _
    rw [ht, filter_toArray, filter_map, nil_append, hnone]
    rfl

end Matched

end Dynarec68k
