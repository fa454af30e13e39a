namespace Dynarec68k

inductive Json where
  | null
  | bool (value : Bool)
  /-- A natural number below 2^64, written without fraction and exponent; none for any other
  number. -/
  | number (natural : Option Nat)
  /-- None where an escape stands for half of a surrogate pair. -/
  | string (text : Option String)
  | array (items : List Json)
  /-- Keys are none where strings are. -/
  | object (members : List (Option String × Json))

namespace Json

def naturalBelow (bound : Nat) : Json → Option Nat
  | .number (some n) => if n < bound then some n else none
  | _ => none

def uint64 (json : Json) : Option UInt64 :=
  (json.naturalBelow 0x10000000000000000).map Nat.toUInt64

def uint32 (json : Json) : Option UInt32 :=
  (json.naturalBelow 0x100000000).map Nat.toUInt32

def uint8 (json : Json) : Option UInt8 :=
  (json.naturalBelow 0x100).map Nat.toUInt8

def flag : Json → Option Bool
  | .bool value => some value
  | _ => none

def text : Json → Option String
  | .string text => text
  | _ => none

def nullable {α : Type} (read : Json → Option α) : Json → Option (Option α)
  | .null => some none
  | json => (read json).map some

def listOf {α : Type} (read : Json → Option α) : Json → Option (List α)
  | .array items => items.mapM read
  | _ => none

/-- One of several names, alone or as the only key of an object, with the value null. -/
def oneOf {α : Type} (table : List (String × α)) : Json → Option α
  | .string (some name) => table.lookup name
  | .object [(some name, .null)] => table.lookup name
  | _ => none

/-- The values of a record's fields in the order of their names. An object gives them by name, no
name twice, other names ignored; an array gives them in order, the last ones left out at will. -/
def fields (names : List String) : Json → Option (List (Option Json))
  | .object members =>
    let given (name : String) : List Json :=
      members.filterMap fun (key, value) => if key = some name then some value else none
    if (members.all fun member => member.1.isSome)
        && names.all fun name => decide ((given name).length ≤ 1)
    then some (names.map fun name => (given name).head?)
    else none
  | .array items =>
    if items.length ≤ names.length then
      some (items.map some ++ List.replicate (names.length - items.length) none)
    else none
  | _ => none

def required {α : Type} (read : Json → Option α) : Option Json → Option α
  | some json => read json
  | none => none

def defaulting {α : Type} (default : α) (read : Json → Option α) : Option Json → Option α
  | some json => read json
  | none => some default

end Json

end Dynarec68k
