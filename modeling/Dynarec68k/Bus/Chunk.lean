import Dynarec68k.Bus.Device
import Dynarec68k.Word

namespace Dynarec68k

structure Access where
  read : Bool
  write : Bool
  code : Bool
  /-- Only odd bytes exist; the buffer holds one byte per word. -/
  oddLane : Bool
  /-- Only even bytes exist. -/
  evenLane : Bool
  deriving DecidableEq, Repr

namespace Access

def none : Access :=
  ⟨false, false, false, false, false⟩

def bits (access : Access) : Nat :=
  (if access.read then 0x01 else 0) + (if access.write then 0x02 else 0)
    + (if access.code then 0x04 else 0) + (if access.oddLane then 0x10 else 0)
    + (if access.evenLane then 0x20 else 0)

/-- Bits that stand for nothing are dropped. -/
def ofBits (bits : Nat) : Access where
  read := bits.testBit 0
  write := bits.testBit 1
  code := bits.testBit 2
  oddLane := bits.testBit 4
  evenLane := bits.testBit 5

def laneOnly (access : Access) : Bool :=
  access.oddLane || access.evenLane

end Access

inductive Backing where
  | buffer (data : ByteArray)
  | banked (banks : Array ByteArray) (active : Nat)
  | device (hardware : Device)

namespace Backing

def bytes? : Backing → Option ByteArray
  | .buffer data => some data
  | .banked banks active => banks[active]?
  | .device _ => none

def buffers : Backing → List ByteArray
  | .buffer data => [data]
  | .banked banks _ => banks.toList
  | .device _ => []

def isDevice : Backing → Bool
  | .device _ => true
  | _ => false

def isBanked : Backing → Bool
  | .banked _ _ => true
  | _ => false

/-- Reads past the end of the buffer float high. -/
def get (backing : Backing) (index : Nat) : UInt8 :=
  match backing.bytes? with
  | some data => if h : index < data.size then data[index] else 0xFF
  | none => 0xFF

def setByte (data : ByteArray) (index : Nat) (value : UInt8) : ByteArray :=
  if h : index < data.size then data.set index value h else data

def set (backing : Backing) (index : Nat) (value : UInt8) : Backing :=
  match backing with
  | .buffer data => .buffer (setByte data index value)
  | .banked banks active => .banked (banks.modify active fun data => setByte data index value) active
  | .device hardware => .device hardware

def text : Backing → String
  | .buffer data => s!"Buffer({data.size} bytes)"
  | .banked banks active => s!"Banked({active} of {banks.size})"
  | .device _ => "Device"

end Backing

structure Chunk where
  start : UInt32
  /-- Exclusive. -/
  stop : UInt32
  /-- Applied to the offset from `start`; repeats the backing through the range. -/
  mask : UInt32
  access : Access
  backing : Backing

namespace Chunk

def contains (chunk : Chunk) (address : UInt32) : Bool :=
  decide (chunk.start ≤ address) && decide (address < chunk.stop)

def offset (chunk : Chunk) (address : UInt32) : UInt32 :=
  (address - chunk.start) &&& chunk.mask

def period (chunk : Chunk) : Nat :=
  min (chunk.stop.toNat - chunk.start.toNat) (chunk.mask.toNat + 1)

def needed (chunk : Chunk) : Nat :=
  if chunk.access.laneOnly then (chunk.period + 1) / 2 else chunk.period

/-- Position of the byte at `address` in the buffer, unless its lane does not exist. -/
def index? (chunk : Chunk) (address : UInt32) : Option Nat :=
  if chunk.access.laneOnly then
    if (address &&& 1 != 0) != chunk.access.oddLane then none
    else some ((chunk.offset address).toNat / 2)
  else some (chunk.offset address).toNat

def get (chunk : Chunk) (address : UInt32) : UInt8 :=
  match chunk.index? address with
  | some index => chunk.backing.get index
  | none => 0xFF

def set (chunk : Chunk) (address : UInt32) (value : UInt8) : Chunk :=
  match chunk.index? address with
  | some index => { chunk with backing := chunk.backing.set index value }
  | none => chunk

def isExecutable (chunk : Chunk) : Bool :=
  chunk.access.code && !chunk.access.laneOnly && !chunk.backing.isDevice

/-- Code memory whose contents can change: writable, or banked. -/
def isTracked (chunk : Chunk) : Bool :=
  chunk.isExecutable && (chunk.access.write || chunk.backing.isBanked)

def text (chunk : Chunk) : String :=
  "MapChunk \x7b start: " ++ toString chunk.start.toNat ++ ", end: " ++ toString chunk.stop.toNat
    ++ ", mask: " ++ toString chunk.mask.toNat
    ++ ", flags: MapFlags(" ++ toString chunk.access.bits ++ "), backing: " ++ chunk.backing.text
    ++ " \x7d"

end Chunk

end Dynarec68k
