import Dynarec68k.Config
import Dynarec68k.Json.Reader

namespace Dynarec68k

inductive ConfigTextError where
  | malformed
  | invalid (error : ConfigError)
  deriving DecidableEq, Repr

def Model.byName : List (String × Model) :=
  [("M68000", .m68000), ("M68010", .m68010), ("M68020", .m68020)]

namespace RegisterAssignment

def name : RegisterAssignment → String
  | .mixed => "default"
  | .inFile => "context"

def byName : List (String × RegisterAssignment) :=
  [("default", .mixed), ("context", .inFile)]

end RegisterAssignment

namespace Backend

def name : Backend → String
  | .interpreter => "interpreter"
  | .native => "native"

def byName : List (String × Backend) :=
  [("interpreter", .interpreter), ("native", .native)]

end Backend

namespace Config

def fieldNames : List String :=
  ["model", "clock_divider", "register_assignment", "tracking_shift", "movem_inline_limit",
    "backend"]

def ofFields : List (Option Json) → Option Config
  | [model, clockDivider, registerAssignment, trackingShift, movemInlineLimit, backend] => do
    return {
      model := ← Json.defaulting default.model (Json.oneOf Model.byName) model
      clockDivider := ← Json.defaulting default.clockDivider Json.uint32 clockDivider
      registerAssignment :=
        ← Json.defaulting default.registerAssignment (Json.oneOf RegisterAssignment.byName)
          registerAssignment
      trackingShift := ← Json.defaulting default.trackingShift Json.uint32 trackingShift
      movemInlineLimit := ← Json.defaulting default.movemInlineLimit Json.uint32 movemInlineLimit
      backend := ← Json.defaulting default.backend (Json.oneOf Backend.byName) backend }
  | _ => none

def ofJson (json : Json) : Option Config :=
  (json.fields fieldNames).bind ofFields

def parse (text : String) : Except ConfigTextError Config :=
  match (Json.parse? text).bind ofJson with
  | none => .error .malformed
  | some config =>
    match config.validate with
    | .ok () => .ok config
    | .error error => .error (.invalid error)

def memberLine (name value : String) : String :=
  "  \"" ++ name ++ "\": " ++ value

def quoted (text : String) : String :=
  "\"" ++ text ++ "\""

def render (config : Config) : String :=
  "\x7b\n" ++ ",\n".intercalate
    [memberLine "model" (quoted config.model.name),
      memberLine "clock_divider" (toString config.clockDivider.toNat),
      memberLine "register_assignment" (quoted config.registerAssignment.name),
      memberLine "tracking_shift" (toString config.trackingShift.toNat),
      memberLine "movem_inline_limit" (toString config.movemInlineLimit.toNat),
      memberLine "backend" (quoted config.backend.name)] ++ "\n\x7d"

end Config

end Dynarec68k
