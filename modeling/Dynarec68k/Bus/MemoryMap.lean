import Dynarec68k.Bus.Chunk
import Dynarec68k.Bus.Event

namespace Dynarec68k

inductive MapError where
  | emptyRange (start stop : UInt32)
  | noBanks (start stop : UInt32)
  | shortBuffer (start stop : UInt32) (size needed : Nat)
  | overlap (start stop next : UInt32)
  | noChunk (start : UInt32)
  | notBanked (start : UInt32)
  | noSuchBank (bank : Nat) (start : UInt32) (count : Nat)
  deriving DecidableEq, Repr

namespace MapError

def address (a : UInt32) : String :=
  "$" ++ Hex.upperPadded 6 a.toNat

def message : MapError → String
  | .emptyRange start stop => s!"empty range {address start}-{address stop}"
  | .noBanks start stop => s!"banked range {address start}-{address stop} has no banks"
  | .shortBuffer start stop size needed =>
      s!"buffer for {address start}-{address stop} holds {size} bytes, {needed} needed"
  | .overlap start stop next => s!"{address start}-{address stop} overlaps {address next}"
  | .noChunk start => s!"no chunk starts at {address start}"
  | .notBanked start => s!"{address start} is not banked"
  | .noSuchBank bank start count =>
      s!"bank {bank} of {address start} out of range ({count} banks)"

end MapError

structure MemoryMap where
  /-- Disjoint, in ascending order. -/
  chunks : Array Chunk
  addressMask : UInt32
  log : Array Event

namespace MemoryMap

variable (map : MemoryMap) (address : UInt32)

/-- A range must not be empty, banks must exist, and every buffer must cover it. -/
def checkChunk (chunk : Chunk) : Except MapError Unit :=
  if chunk.stop ≤ chunk.start then .error (.emptyRange chunk.start chunk.stop)
  else if chunk.backing.isBanked && chunk.backing.buffers.isEmpty then
    .error (.noBanks chunk.start chunk.stop)
  else
    match chunk.backing.buffers.find? fun data => decide (data.size < chunk.needed) with
    | some data => .error (.shortBuffer chunk.start chunk.stop data.size chunk.needed)
    | none => .ok ()

def checkChunks : List Chunk → Except MapError Unit
  | [] => .ok ()
  | chunk :: rest =>
    match checkChunk chunk with
    | .ok () => checkChunks rest
    | .error error => .error error

def checkDisjoint : List Chunk → Except MapError Unit
  | first :: second :: rest =>
    if second.start < first.stop then .error (.overlap first.start first.stop second.start)
    else checkDisjoint (second :: rest)
  | _ => .ok ()

def sortChunks (chunks : List Chunk) : List Chunk :=
  chunks.mergeSort fun a b => decide (a.start ≤ b.start)

def build (chunks : List Chunk) (addressMask : UInt32) : Except MapError MemoryMap :=
  let sorted := sortChunks chunks
  match checkChunks sorted with
  | .error error => .error error
  | .ok () =>
    match checkDisjoint sorted with
    | .error error => .error error
    | .ok () => .ok { chunks := sorted.toArray, addressMask := addressMask, log := #[] }

def find? : Option (Fin map.chunks.size) :=
  let onBus := address &&& map.addressMask
  map.chunks.findFinIdx? fun chunk => chunk.contains onBus

/-- One representative for all the addresses that reach the same byte. -/
def canonical : UInt32 :=
  let onBus := address &&& map.addressMask
  match map.find? onBus with
  | some i => map.chunks[i].start + map.chunks[i].offset onBus
  | none => onBus

def accessAt : Access :=
  match map.find? address with
  | some i => map.chunks[i].access
  | none => Access.none

def isExecutable : Bool :=
  match map.find? address with
  | some i => map.chunks[i].isExecutable
  | none => false

def isTracked : Bool :=
  match map.find? address with
  | some i => map.chunks[i].isTracked
  | none => false

def findStart? (start : UInt32) : Option (Fin map.chunks.size) :=
  map.chunks.findFinIdx? fun chunk => chunk.start == start

def activeBank? (start : UInt32) : Option Nat :=
  match map.findStart? start with
  | none => none
  | some i =>
    match map.chunks[i].backing with
    | .banked _ active => some active
    | _ => none

/-- Map a bank into the banked range at `start`. Answers the addresses whose contents changed,
none if the bank was mapped already. -/
def selectBank (start : UInt32) (bank : Nat) :
    Except MapError (Option (UInt32 × UInt32) × MemoryMap) :=
  match map.findStart? start with
  | none => .error (.noChunk start)
  | some i =>
    let chunk := map.chunks[i]
    match chunk.backing with
    | .banked banks active =>
      if banks.size ≤ bank then .error (.noSuchBank bank start banks.size)
      else if active = bank then .ok (none, map)
      else
        let stop := min (start.toNat + chunk.period) chunk.stop.toNat
        .ok (some (start, stop.toUInt32),
          { map with
            chunks := map.chunks.set i { chunk with backing := .banked banks bank } })
    | _ => .error (.notBanked start)

/-- Put words of a range into slots, from `address` on, while both bytes lie inside. Answers how many
there were. -/
def fetchInto (chunk : Chunk) (data : ByteArray) (address : UInt32) :
    List UInt16 → Nat × List UInt16
  | [] => (0, [])
  | slot :: rest =>
    if address < chunk.start ∨ chunk.stop ≤ address + 1 then (0, slot :: rest)
    else
      let index := (chunk.offset address).toNat
      if h : index + 1 < data.size then
        let (count, rest) := fetchInto chunk data (address + 2) rest
        (count + 1, (data[index].toUInt16 <<< 8 ||| data[index + 1].toUInt16) :: rest)
      else (0, slot :: rest)

def fetchSlots (slots : List UInt16) : Nat × List UInt16 :=
  match map.find? address with
  | none => (0, slots)
  | some i =>
    match map.chunks[i].backing.bytes? with
    | none => (0, slots)
    | some data => fetchInto map.chunks[i] data (address &&& map.addressMask) slots

def fetchWords (count : Nat) : List UInt16 :=
  let (fetched, slots) := map.fetchSlots address (List.replicate count 0)
  slots.take fetched

def readDevice (i : Fin map.chunks.size) (device : Device) (address : UInt32) :
    UInt16 × MemoryMap :=
  let (value, device) := device.read16 address
  (value,
    { map with
      chunks := map.chunks.set i { map.chunks[i] with backing := .device device }
      log := map.log.push (.read16 address value) })

/-- Addresses that nothing answers to, or that cannot be read, float high. -/
def read8 : UInt8 × MemoryMap :=
  let onBus := address &&& map.addressMask
  match map.find? onBus with
  | none => (0xFF, map)
  | some i =>
    if map.chunks[i].access.read then
      match map.chunks[i].backing with
      | .device device =>
        let (word, map) := map.readDevice i device (onBus &&& 0xFFFFFFFE)
        (if onBus &&& 1 = 0 then (word >>> 8).toUInt8 else word.toUInt8, map)
      | _ => (map.chunks[i].get onBus, map)
    else (0xFF, map)

def read16 : UInt16 × MemoryMap :=
  let onBus := address &&& map.addressMask &&& 0xFFFFFFFE
  match map.find? onBus with
  | none => (0xFFFF, map)
  | some i =>
    if map.chunks[i].access.read then
      match map.chunks[i].backing with
      | .device device => map.readDevice i device onBus
      | _ =>
        let high := map.chunks[i].get onBus
        let low := map.chunks[i].get (onBus + 1)
        (high.toUInt16 <<< 8 ||| low.toUInt16, map)
    else (0xFFFF, map)

/-- The high word is read first. -/
def read32 : UInt32 × MemoryMap :=
  let (high, map) := map.read16 address
  let (low, map) := map.read16 (address + 2)
  (Word.join high low, map)

def setDevice (i : Fin map.chunks.size) (device : Device) (event : Event) : MemoryMap :=
  { map with
    chunks := map.chunks.set i { map.chunks[i] with backing := .device device }
    log := map.log.push event }

def modifyChunk (i : Nat) (f : Chunk → Chunk) : MemoryMap :=
  { map with chunks := map.chunks.modify i f }

/-- Writes to addresses that nothing answers to, or that cannot be written, are lost. -/
def write8 (value : UInt8) : DeviceAction × MemoryMap :=
  let onBus := address &&& map.addressMask
  match map.find? onBus with
  | none => (.proceed, map)
  | some i =>
    if map.chunks[i].access.write then
      match map.chunks[i].backing with
      | .device device =>
        let (action, device) := device.write8 onBus value
        (action, map.setDevice i device (.write8 onBus value))
      | _ => (.proceed, map.modifyChunk i fun chunk => chunk.set onBus value)
    else (.proceed, map)

def write16 (value : UInt16) : DeviceAction × MemoryMap :=
  let onBus := address &&& map.addressMask &&& 0xFFFFFFFE
  match map.find? onBus with
  | none => (.proceed, map)
  | some i =>
    if map.chunks[i].access.write then
      match map.chunks[i].backing with
      | .device device =>
        let (action, device) := device.write16 onBus value
        (action, map.setDevice i device (.write16 onBus value))
      | _ =>
        (.proceed, map.modifyChunk i fun chunk =>
          (chunk.set onBus (value >>> 8).toUInt8).set (onBus + 1) value.toUInt8)
    else (.proceed, map)

/-- High word first, as most long writes go. -/
def write32 (value : UInt32) : DeviceAction × MemoryMap :=
  let (first, map) := map.write16 address (value >>> 16).toUInt16
  let (second, map) := map.write16 (address + 2) value.toUInt16
  (first.or second, map)

/-- Low word first, as long writes through a predecrement go. -/
def write32LowFirst (value : UInt32) : DeviceAction × MemoryMap :=
  let (first, map) := map.write16 (address + 2) value.toUInt16
  let (second, map) := map.write16 address (value >>> 16).toUInt16
  (first.or second, map)

def dump (count : Nat) : Array UInt8 × MemoryMap :=
  (List.range count).foldl
    (fun (bytes, map) i =>
      let (value, map) := map.read8 (address + i.toUInt32)
      (bytes.push value, map)) (#[], map)

def text : String :=
  "MemoryMap \x7b chunks: [" ++ ", ".intercalate (map.chunks.toList.map Chunk.text)
    ++ "], address_mask: " ++ toString map.addressMask.toNat ++ " \x7d"

end MemoryMap

end Dynarec68k
