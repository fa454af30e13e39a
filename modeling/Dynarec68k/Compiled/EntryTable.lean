import Dynarec68k.Host.Operation
import Std.Data.HashMap

/-!
Where the code of guest instructions stands. The first word of a compiled instruction has an
entry; the words after it are marked as its continuation unless they start another instruction.
Words are kept in pages. A page keeps of an entry how far it is from the code that the page was
first needed for; two of these distances are taken for the marks.
-/

namespace Dynarec68k

open Host

inductive Slot where
  | entry (native : CodePtr)
  | continuation
  deriving DecidableEq, Repr

structure Page where
  base : CodePtr
  offsets : Vector Int32 1024

namespace Page

def unknown : Int32 :=
  Int32.minValue

def continuation : Int32 :=
  Int32.minValue + 1

def new (base : CodePtr) : Page where
  base := base
  offsets := .replicate 1024 unknown

def slot? (page : Page) (index : Fin 1024) : Option Slot :=
  let offset := page.offsets[index]
  if offset = unknown then none
  else if offset = continuation then some .continuation
  else some (.entry (page.base + offset.toUInt32))

def enter (page : Page) (index : Fin 1024) (native : CodePtr) : Page :=
  { page with offsets := page.offsets.set index (native - page.base).toInt32 }

def extend (page : Page) (index : Fin 1024) : Page :=
  if page.offsets[index] = unknown then
    { page with offsets := page.offsets.set index continuation }
  else page

end Page

/-- The pages by number. A page has the words with the same upper bits of their number, which is half
the address. -/
abbrev Pages :=
  Std.HashMap UInt32 Page

namespace Pages

def indexOf (word : UInt32) : Fin 1024 :=
  Fin.ofNat 1024 word.toNat

def slotAt (pages : Pages) (word : UInt32) : Option Slot :=
  (pages[word >>> 10]?).bind (·.slot? (indexOf word))

/-- Change the page of a word, which is made for `native` if it is not there yet. -/
def change (pages : Pages) (word : UInt32) (native : CodePtr) (change : Page → Page) : Pages :=
  pages.alter (word >>> 10) fun page => some (change (page.getD (.new native)))

def extend (native : CodePtr) (pages : Pages) (word : UInt32) : Pages :=
  pages.change word native (·.extend (indexOf word))

/-- Numbers of the words after the first of an instruction. -/
def wordsAfter (address : UInt32) (length : Nat) : List UInt32 :=
  (List.range ((length + 1) / 2 - 1)).map fun i => (address + 2 * (i + 1).toUInt32) >>> 1

def mark (pages : Pages) (address : UInt32) (native : CodePtr) (length : Nat) : Pages :=
  let word := address >>> 1
  (wordsAfter address length).foldl (extend native)
    (pages.change word native (·.enter (indexOf word) native))

end Pages

structure EntryTable where
  pages : Pages
  count : Nat
  /-- Where the code of each instruction starts, newest first. -/
  origins : List (CodePtr × UInt32)

namespace EntryTable

variable (table : EntryTable)

def empty : EntryTable where
  pages := ∅
  count := 0
  origins := []

def slot? (address : UInt32) : Option Slot :=
  table.pages.slotAt (address >>> 1)

def lookup (address : UInt32) : Option CodePtr :=
  if address &&& 1 = 0 then
    match table.slot? address with
    | some (.entry native) => some native
    | _ => none
  else none

def isContinuation (address : UInt32) : Bool :=
  table.slot? address = some .continuation

def mark (address : UInt32) (native : CodePtr) (length : Nat) : EntryTable :=
  { table with pages := table.pages.mark address native length }

/-- An entry that is there stays. Answers whether the new one was taken. -/
def install (address : UInt32) (native : CodePtr) (length : Nat) : EntryTable × Bool :=
  match table.lookup address with
  | some _ => (table, false)
  | none => ({ table with count := table.count + 1 }.mark address native length, true)

def replace (address : UInt32) (native : CodePtr) (length : Nat) : EntryTable :=
  match table.lookup address with
  | some _ => table.mark address native length
  | none => { table with count := table.count + 1 }.mark address native length

/-- Start of the instruction that covers the word at `address`, looking back over at most `steps`
continuation words. -/
def walkBack (table : EntryTable) (address : UInt32) : Nat → Option UInt32
  | 0 =>
    match table.slot? address with
    | some (.entry _) => some address
    | _ => none
  | steps + 1 =>
    match table.slot? address with
    | some (.entry _) => some address
    | some .continuation => table.walkBack (address - 2) steps
    | none => none

def instructionStart (address : UInt32) (maxBytes : Nat) : Option UInt32 :=
  table.walkBack (address &&& 0xFFFFFFFE) ((maxBytes + 1) / 2)

def recordOrigin (native : CodePtr) (address : UInt32) : EntryTable :=
  { table with origins := (native, address) :: table.origins }

def origin? (native : CodePtr) : Option UInt32 :=
  (table.origins.find? fun (start, _) => decide (start ≤ native)).map (·.2)

end EntryTable

end Dynarec68k
