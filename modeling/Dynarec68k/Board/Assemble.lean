import Dynarec68k.Board.Description
import Dynarec68k.Cpu.Timing
import Dynarec68k.Files.Path
import Dynarec68k.Files.Script

namespace Dynarec68k

inductive RegionFault where
  | emptyRange
  /-- The image, placed at its offset, reaches past the end. -/
  | imageTooLong (size offset : Nat)
  deriving DecidableEq, Repr

def RegionFault.message : RegionFault → String
  | .emptyRange => "empty range"
  | .imageTooLong size offset => s!"{size} byte image at offset {offset} does not fit"

inductive BoardError where
  | file (path : String) (error : FileError)
  | malformed
  | region (start stop : UInt32) (fault : RegionFault)
  | cpu (error : CpuError)
  deriving DecidableEq, Repr

namespace BoardError

def ofText : ConfigTextError → BoardError
  | .malformed => .malformed
  | .invalid error => .cpu (.invalidConfig error)

def message : BoardError → String
  | .file path error => path ++ ": " ++ error.message
  | .malformed => "machine description: no description of a machine"
  | .region start stop fault =>
      "region $" ++ Hex.upperPadded 8 start.toNat ++ "-$" ++ Hex.upperPadded 8 stop.toNat ++ ": "
        ++ fault.message
  | .cpu error => error.message

end BoardError

abbrev Assembly :=
  ExceptT BoardError Script

namespace Board

def zeros (size : Nat) : ByteArray :=
  if h : size = 0 then .empty
  else
    let half := zeros (size / 2)
    let whole := half.copySlice 0 half half.size half.size
    if size % 2 = 0 then whole else whole.push 0
termination_by size
decreasing_by omega

namespace Region

def size (region : Region) : Nat :=
  let span := region.stop.toNat - region.start.toNat
  match region.mask with
  | some mask => min span (mask.toNat + 1)
  | none => span

def access (region : Region) : Access where
  read := region.read
  write := region.write
  code := region.code
  oddLane := false
  evenLane := false

/-- The region's memory: zeros, and its image if it has one. Images are looked for from `base`. -/
def buffer (region : Region) (base : String) : Assembly ByteArray :=
  match region.image with
  | none => return zeros region.size
  | some image => do
    let path := Path.join base image
    match ← Script.readFile path with
    | .error error => throw (.file path error)
    | .ok bytes =>
      let offset := region.loadOffset.toNat
      if region.size < offset + bytes.size then
        throw (.region region.start region.stop (.imageTooLong bytes.size offset))
      else return bytes.copySlice 0 (zeros region.size) offset bytes.size

def chunk (region : Region) (base : String) : Assembly Chunk := do
  if region.stop ≤ region.start then
    throw (.region region.start region.stop .emptyRange)
  else
    let data ← region.buffer base
    return {
      start := region.start
      stop := region.stop
      mask := region.mask.getD 0xFFFFFFFF
      access := region.access
      backing := .buffer data }

end Region

def populate (board : Board) (chunks : List Chunk) : Except CpuError Cpu :=
  match MemoryMap.build chunks board.config.addressMask with
  | .error error => .error (.badMemoryMap error)
  | .ok memory => Cpu.create board.config memory

def start (board : Board) (cpu : Cpu) : Cpu :=
  match board.pc with
  | some pc => cpu.reset.setPc pc
  | none => cpu.reset

def assemble (board : Board) (base : String) : Assembly Cpu := do
  let chunks ← board.regions.mapM fun region => region.chunk base
  match board.populate chunks with
  | .error error => throw (.cpu error)
  | .ok cpu => return board.start cpu

def load (path : String) : Assembly Board := do
  match ← Script.readText path with
  | .error error => throw (.file path error)
  | .ok text =>
    match parse text with
    | .error error => throw (.ofText error)
    | .ok board => return board

end Board

end Dynarec68k
