import Dynarec68k.Isa.Condition
import Dynarec68k.Isa.Size

/-!
The guest's registers as generated code sees them: bytes, least significant first.

From offset 0x00 D0 to D7, from 0x20 A0 to A7 and the stack pointer not in use, from 0x44 the
flags X N Z V C, one byte each, and at 0x49 the upper byte of the status register.
-/

namespace Dynarec68k

abbrev registerFileSize : Nat :=
  0x4C

structure RegisterFile where
  bytes : Vector UInt8 registerFileSize
  deriving DecidableEq

namespace RegisterFile

variable (file : RegisterFile)

def dataOffset : Nat :=
  0x00

def addressOffset : Nat :=
  0x20

def flagOffset : Flag → Nat
  | .x => 0x44
  | .n => 0x45
  | .z => 0x46
  | .v => 0x47
  | .c => 0x48

def statusOffset : Nat :=
  0x49

def zero : RegisterFile where
  bytes := Vector.replicate registerFileSize 0

/-- Offset of register 0 to 15, data registers first; 16 is the stack pointer not in use. -/
def generalOffset (reg : Nat) : Nat :=
  4 * reg

def byteAt (offset : Nat) : UInt8 :=
  if h : offset < registerFileSize then file.bytes[offset] else 0

def setByte (offset : Nat) (value : UInt8) : RegisterFile where
  bytes := file.bytes.setIfInBounds offset value

def read (offset : Nat) (size : Size) : Option UInt32 :=
  if offset + size.bytes ≤ registerFileSize then
    match size with
    | .byte => some (file.byteAt offset).toUInt32
    | .word =>
      some ((file.byteAt offset).toUInt32 ||| (file.byteAt (offset + 1)).toUInt32 <<< 8)
    | .long =>
      some ((file.byteAt offset).toUInt32 ||| (file.byteAt (offset + 1)).toUInt32 <<< 8
        ||| (file.byteAt (offset + 2)).toUInt32 <<< 16
        ||| (file.byteAt (offset + 3)).toUInt32 <<< 24)
  else none

def write? (offset : Nat) (size : Size) (value : UInt32) : Option RegisterFile :=
  if offset + size.bytes ≤ registerFileSize then
    match size with
    | .byte => some (file.setByte offset value.toUInt8)
    | .word =>
      some ((file.setByte offset value.toUInt8).setByte (offset + 1) (value >>> 8).toUInt8)
    | .long =>
      some ((((file.setByte offset value.toUInt8).setByte (offset + 1) (value >>> 8).toUInt8).setByte
        (offset + 2) (value >>> 16).toUInt8).setByte (offset + 3) (value >>> 24).toUInt8)
  else none

def long (offset : Nat) : UInt32 :=
  (file.read offset .long).getD 0

def setLong (offset : Nat) (value : UInt32) : RegisterFile :=
  (file.write? offset .long value).getD file

def d (n : Nat) : UInt32 :=
  file.long (dataOffset + 4 * (n % 8))

def setD (n : Nat) (value : UInt32) : RegisterFile :=
  file.setLong (dataOffset + 4 * (n % 8)) value

/-- A0 to A7, and the stack pointer not in use for every number from 8 on. -/
def a (n : Nat) : UInt32 :=
  file.long (addressOffset + 4 * min n 8)

def setA (n : Nat) (value : UInt32) : RegisterFile :=
  file.setLong (addressOffset + 4 * min n 8) value

def general (reg : Nat) : UInt32 :=
  if reg < 8 then file.d reg else file.a (reg - 8)

def setGeneral (reg : Nat) (value : UInt32) : RegisterFile :=
  if reg < 8 then file.setD reg value else file.setA (reg - 8) value

def flag (file : RegisterFile) (flag : Flag) : Bool :=
  file.byteAt (flagOffset flag) != 0

def setFlag (flag : Flag) (value : Bool) : RegisterFile :=
  file.setByte (flagOffset flag) value.toUInt8

def ccr : UInt8 :=
  Flag.all.foldl (fun acc flag => if file.flag flag then acc ||| flag.ccrBit else acc) 0

def setCcr (ccr : UInt8) : RegisterFile :=
  Flag.all.foldl (fun file flag => file.setFlag flag (ccr &&& flag.ccrBit != 0)) file

def status : UInt8 :=
  file.byteAt statusOffset

def setStatus (status : UInt8) : RegisterFile :=
  file.setByte statusOffset status

def sr : UInt16 :=
  file.status.toUInt16 <<< 8 ||| file.ccr.toUInt16

def supervisor : Bool :=
  file.status &&& 0x20 != 0

def tracing : Bool :=
  file.status &&& 0x80 != 0

def interruptMask : UInt8 :=
  file.status &&& 0x07

end RegisterFile

end Dynarec68k
