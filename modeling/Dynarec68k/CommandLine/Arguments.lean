import Dynarec68k.Isa.Model
import Dynarec68k.Numeral

namespace Dynarec68k.CommandLine

structure ListingRange where
  address : UInt32
  count : Nat
  deriving DecidableEq, Repr

structure Arguments where
  /-- File with a description. It is used rather than an image. -/
  description : Option String
  image : Option String
  base : UInt32
  ram : UInt32
  model : Model
  registersInFile : Bool
  native : Bool
  cycles : Option UInt64
  listing : Option ListingRange
  snapshot : Option String
  deriving DecidableEq, Repr

inductive Refusal where
  | help
  | nothingToRun
  | missingValue (option : String)
  | invalidNumber (option value : String)
  | unknownModel
  | unknownOption (option : String)
  deriving DecidableEq, Repr

namespace Refusal

def message? : Refusal → Option String
  | .help => none
  | .nothingToRun => none
  | .missingValue option => some ("Missing value for " ++ option)
  | .invalidNumber option value => some ("Invalid number for " ++ option ++ ": " ++ value)
  | .unknownModel => some "Expected 68000, 68010 or 68020 after --model"
  | .unknownOption option => some ("Unknown option: " ++ option)

def isFailure : Refusal → Bool
  | .help => false
  | _ => true

end Refusal

def usage : List String :=
  ["Usage: m68k-runner <machine.json> [options]",
    "       m68k-runner --image <file.bin> [--base <addr>] [--ram <bytes>] [options]",
    "",
    "Options:",
    "  --model <68000|68010|68020>  CPU model for --image (default 68000)",
    "  --context-registers          keep every guest register in the context",
    "  --native                     run x86-64 machine code instead of the executor",
    "  --cycles <n>                 cycles to run (overrides the description)",
    "  --disasm <addr> <count>      list instructions instead of running",
    "  --save-state <file>          write a register snapshot after the run"]

def unsigned? (base : Nat) (value? : Char → Option Nat) : List Char → Option Nat
  | '+' :: digits => Numeral.ofDigits? base value? digits
  | digits => Numeral.ofDigits? base value? digits

def number? (text : String) : Option UInt64 :=
  let number :=
    match text.toList with
    | '0' :: 'x' :: digits => unsigned? 16 Numeral.hexValue? digits
    | '$' :: digits => unsigned? 16 Numeral.hexValue? digits
    | digits => unsigned? 10 Numeral.decimalValue? digits
  match number with
  | some n => if n < 0x10000000000000000 then some n.toUInt64 else none
  | none => none

def modelByName : List (String × Model) :=
  [("68000", .m68000), ("68k", .m68000), ("68010", .m68010), ("68020", .m68020)]

def takeNumber (option : String) : List String → Except Refusal (UInt64 × List String)
  | [] => .error (.missingValue option)
  | value :: rest =>
    match number? value with
    | some n => .ok (n, rest)
    | none => .error (.invalidNumber option value)

def takeModel : List String → Except Refusal (Model × List String)
  | [] => .error .unknownModel
  | value :: rest =>
    match modelByName.lookup value with
    | some model => .ok (model, rest)
    | none => .error .unknownModel

namespace Arguments

def initial : Arguments where
  description := none
  image := none
  base := 0x1000
  ram := 0x100000
  model := .m68000
  registersInFile := false
  native := false
  cycles := none
  listing := none
  snapshot := none

/-- Take one argument and the values that belong to it. A file name that is missing takes back the
one given before. -/
def take (arguments : Arguments) (argument : String) (rest : List String) :
    Except Refusal (Arguments × List String) :=
  match argument with
  | "--image" => .ok ({ arguments with image := rest.head? }, rest.tail)
  | "--base" => do
    let (n, rest) ← takeNumber argument rest
    return ({ arguments with base := n.toUInt32 }, rest)
  | "--ram" => do
    let (n, rest) ← takeNumber argument rest
    return ({ arguments with ram := n.toUInt32 }, rest)
  | "--model" => do
    let (model, rest) ← takeModel rest
    return ({ arguments with model := model }, rest)
  | "--context-registers" => .ok ({ arguments with registersInFile := true }, rest)
  | "--native" => .ok ({ arguments with native := true }, rest)
  | "--cycles" => do
    let (n, rest) ← takeNumber argument rest
    return ({ arguments with cycles := some n }, rest)
  | "--disasm" => do
    let (address, rest) ← takeNumber argument rest
    let (count, rest) ← takeNumber argument rest
    return ({ arguments with listing := some ⟨address.toUInt32, count.toNat⟩ }, rest)
  | "--save-state" => .ok ({ arguments with snapshot := rest.head? }, rest.tail)
  | "--help" => .error .help
  | "-h" => .error .help
  | _ =>
    if ['-', '-'].isPrefixOf argument.toList then .error (.unknownOption argument)
    else .ok ({ arguments with description := some argument }, rest)

/-- Take arguments from left to right. Each takes at least itself, so that as much fuel as there
are arguments is enough. -/
def takeAll (arguments : Arguments) : Nat → List String → Except Refusal Arguments
  | _, [] => .ok arguments
  | 0, _ => .ok arguments
  | fuel + 1, argument :: rest =>
    match arguments.take argument rest with
    | .ok (arguments, rest) => arguments.takeAll fuel rest
    | .error refusal => .error refusal

def parse (texts : List String) : Except Refusal Arguments :=
  match initial.takeAll texts.length texts with
  | .error refusal => .error refusal
  | .ok arguments =>
    if arguments.description.isNone && arguments.image.isNone then .error .nothingToRun
    else .ok arguments

end Arguments

end Dynarec68k.CommandLine
