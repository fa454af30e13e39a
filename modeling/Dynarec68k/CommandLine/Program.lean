import Dynarec68k.Board.Assemble
import Dynarec68k.CommandLine.Arguments
import Dynarec68k.CommandLine.Report
import Dynarec68k.Cpu.Breakpoint
import Dynarec68k.Cpu.Snapshot

namespace Dynarec68k.CommandLine

structure Report where
  /-- Zero for success. -/
  status : UInt32
  output : List String
  errors : List String
  deriving DecidableEq, Repr

namespace Report

def success (output : List String) : Report :=
  ⟨0, output, []⟩

def failure (output : List String) (error : String) : Report :=
  ⟨1, output, [error]⟩

def ofRefusal (refusal : Refusal) : Report where
  status := if refusal.isFailure then 1 else 0
  output := []
  errors := refusal.message?.toList ++ usage

end Report

def override (arguments : Arguments) (board : Board) : Board :=
  { board with
    cycles := arguments.cycles.getD board.cycles
    config := { board.config with
      registerAssignment :=
        if arguments.registersInFile then .inFile else board.config.registerAssignment
      backend := if arguments.native then .native else board.config.backend } }

def flatBoard (arguments : Arguments) : Board :=
  Board.flat { Config.default with model := arguments.model } (arguments.image.getD "")
    arguments.base arguments.ram

def setUp (arguments : Arguments) : Assembly (Board × Cpu) := do
  match arguments.description with
  | some path =>
    let board := override arguments (← Board.load path)
    return (board, ← board.assemble (Path.parent path))
  | none =>
    let board := override arguments (flatBoard arguments)
    return (board, ← board.assemble "")

def insertBreakpoints (cpu : Cpu) (addresses : List UInt32) : Cpu :=
  addresses.foldl (fun cpu address => cpu.insertBreakpoint address fun _ => .stop) cpu

def requestFrameInterrupt (board : Board) (cpu : Cpu) : Cpu :=
  match board.frameInterrupt with
  | some interrupt => cpu.setInterrupt interrupt.level interrupt.cycle
  | none => cpu

def frameLength (board : Board) : Nat :=
  max board.frameCycles.toNat 1

/-- Run `left` cycles in frames. After each the cycle counter goes back by its length. A run that
stops before the end of its frame is the last. None if a frame goes on for ever. -/
def runFrames (board : Board) (left : Nat) (cpu : Cpu) : Option (Except CpuError Unit × Cpu) :=
  if _ : left = 0 then some (.ok (), cpu)
  else
    let frame := min left (frameLength board)
    match (requestFrameInterrupt board cpu).runUntil frame.toUInt32 with
    | none => none
    | some (.error error, cpu) => some (.error error, cpu)
    | some (.ok (), cpu) =>
      if cpu.cycle < frame.toUInt32 then some (.ok (), cpu)
      else runFrames board (left - frame) (cpu.adjustCycles frame.toUInt32)
termination_by left
decreasing_by
  have positive : 1 ≤ frameLength board := Nat.le_max_right _ _
  omega

def runLines (cpu : Cpu) : List String :=
  breakpointLines cpu.takeEvents.1 ++ registerLines cpu

def saveSnapshot (cpu : Cpu) (lines : List String) : Option String → Script Report
  | none => return .success lines
  | some path => do
    match ← Script.writeFile path (ByteArray.mk cpu.snapshot.toArray) with
    | .ok () => return .success lines
    | .error error => return .failure lines (BoardError.file path error).message

/-- A run that goes on for ever prints nothing. -/
def runBoard (arguments : Arguments) (board : Board) (cpu : Cpu) : Script Report :=
  match runFrames board board.cycles.toNat (insertBreakpoints cpu board.breakpoints) with
  | none => return .success []
  | some (.error error, cpu) => return .failure (runLines cpu) error.message
  | some (.ok (), cpu) => saveSnapshot cpu (runLines cpu) arguments.snapshot

def runArguments (arguments : Arguments) : Script Report := do
  match ← (setUp arguments).run with
  | .error error => return .failure [] error.message
  | .ok (board, cpu) =>
    match arguments.listing with
    | some range =>
      return .success (listingLines cpu.config.model cpu.memory range.address range.count)
    | none => runBoard arguments board cpu

def program (texts : List String) : Script Report :=
  match Arguments.parse texts with
  | .error refusal => return .ofRefusal refusal
  | .ok arguments => runArguments arguments

end Dynarec68k.CommandLine
