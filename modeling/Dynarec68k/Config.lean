import Dynarec68k.Isa.Model
import Dynarec68k.Word

namespace Dynarec68k

inductive RegisterAssignment where
  /-- D0 to D3, A0, A1, A6 and A7 in host registers, the others in the register file. -/
  | mixed
  /-- All of them in the register file. -/
  | inFile
  deriving DecidableEq, Repr

inductive Backend where
  | interpreter
  | native
  deriving DecidableEq, Repr

structure Config where
  model : Model
  /-- Master clocks per processor clock; every charge is multiplied by it. -/
  clockDivider : UInt32
  registerAssignment : RegisterAssignment
  /-- Logarithm of the granularity at which written code is tracked. -/
  trackingShift : UInt32
  /-- Register lists up to this length are moved by straight code, longer ones by a loop. -/
  movemInlineLimit : UInt32
  backend : Backend
  deriving DecidableEq, Repr

inductive ConfigError where
  | zeroDivider
  | trackingShift (shift : UInt32)
  /-- The memory map is behind a bus of another width than the model's. -/
  | busMismatch (mask : UInt32) (model : Model)
  deriving DecidableEq, Repr

def ConfigError.message : ConfigError → String
  | .zeroDivider => "clock divider must be at least 1"
  | .trackingShift shift => s!"tracking shift {shift.toNat} outside 1..=16"
  | .busMismatch mask model =>
      s!"memory map mask ${Hex.upperPadded 8 mask.toNat} does not match the {model.name} address bus"

namespace Config

def default : Config where
  model := .m68000
  clockDivider := 1
  registerAssignment := .mixed
  trackingShift := 7
  movemInlineLimit := 4
  backend := .interpreter

def validate (config : Config) : Except ConfigError Unit :=
  if config.clockDivider = 0 then .error .zeroDivider
  else if config.trackingShift < 1 ∨ 16 < config.trackingShift then
    .error (.trackingShift config.trackingShift)
  else .ok ()

def addressMask (config : Config) : UInt32 :=
  config.model.addressMask

def cycles (config : Config) (clocks : Nat) : UInt32 :=
  clocks.toUInt32 * config.clockDivider

def busCycles (config : Config) : UInt32 :=
  config.cycles 4

end Config

end Dynarec68k
