import Dynarec68k.Config.Text

namespace Dynarec68k

namespace Board

structure Region where
  start : UInt32
  /-- Exclusive. -/
  stop : UInt32
  /-- Applied to the offset into the region. -/
  mask : Option UInt32
  read : Bool
  write : Bool
  code : Bool
  image : Option String
  /-- Where in the region the image starts. -/
  loadOffset : UInt32
  deriving DecidableEq, Repr

structure FrameInterrupt where
  level : UInt8
  cycle : UInt32
  deriving DecidableEq, Repr

end Board

structure Board where
  config : Config
  regions : List Board.Region
  cycles : UInt64
  frameCycles : UInt32
  frameInterrupt : Option Board.FrameInterrupt
  /-- Start here instead of at the reset vector. -/
  pc : Option UInt32
  breakpoints : List UInt32
  deriving DecidableEq, Repr

namespace Board

def defaultCycles : UInt64 :=
  1000000

def defaultFrameCycles : UInt32 :=
  100000

/-- Memory from zero with an image at `base`, which is where the processor starts. -/
def flat (config : Config) (image : String) (base size : UInt32) : Board where
  config := config
  regions := [
    { start := 0
      stop := size
      mask := none
      read := true
      write := true
      code := true
      image := some image
      loadOffset := base }]
  cycles := defaultCycles
  frameCycles := defaultFrameCycles
  frameInterrupt := none
  pc := some base
  breakpoints := []

namespace Region

def fieldNames : List String :=
  ["start", "end", "mask", "read", "write", "code", "image", "load_offset"]

def ofFields : List (Option Json) → Option Region
  | [start, stop, mask, read, write, code, image, loadOffset] => do
    return {
      start := ← Json.required Json.uint32 start
      stop := ← Json.required Json.uint32 stop
      mask := ← Json.defaulting none (Json.nullable Json.uint32) mask
      read := ← Json.defaulting false Json.flag read
      write := ← Json.defaulting false Json.flag write
      code := ← Json.defaulting false Json.flag code
      image := ← Json.defaulting none (Json.nullable Json.text) image
      loadOffset := ← Json.defaulting 0 Json.uint32 loadOffset }
  | _ => none

def ofJson (json : Json) : Option Region :=
  (json.fields fieldNames).bind ofFields

end Region

namespace FrameInterrupt

def fieldNames : List String :=
  ["level", "cycle"]

def ofFields : List (Option Json) → Option FrameInterrupt
  | [level, cycle] => do
    return {
      level := ← Json.required Json.uint8 level
      cycle := ← Json.defaulting 0 Json.uint32 cycle }
  | _ => none

def ofJson (json : Json) : Option FrameInterrupt :=
  (json.fields fieldNames).bind ofFields

end FrameInterrupt

def fieldNames : List String :=
  ["config", "regions", "cycles", "frame_cycles", "frame_interrupt", "pc", "breakpoints"]

def ofFields : List (Option Json) → Option Board
  | [config, regions, cycles, frameCycles, frameInterrupt, pc, breakpoints] => do
    return {
      config := ← Json.defaulting Config.default Config.ofJson config
      regions := ← Json.required (Json.listOf Region.ofJson) regions
      cycles := ← Json.defaulting defaultCycles Json.uint64 cycles
      frameCycles := ← Json.defaulting defaultFrameCycles Json.uint32 frameCycles
      frameInterrupt :=
        ← Json.defaulting none (Json.nullable FrameInterrupt.ofJson) frameInterrupt
      pc := ← Json.defaulting none (Json.nullable Json.uint32) pc
      breakpoints := ← Json.defaulting [] (Json.listOf Json.uint32) breakpoints }
  | _ => none

/-- A description whose configuration need not be valid. -/
def ofJson (json : Json) : Option Board :=
  (json.fields fieldNames).bind ofFields

def parse (text : String) : Except ConfigTextError Board :=
  match (Json.parse? text).bind ofJson with
  | none => .error .malformed
  | some board =>
    match board.config.validate with
    | .ok () => .ok board
    | .error error => .error (.invalid error)

end Board

end Dynarec68k
