import Dynarec68k.Json.Value
import Dynarec68k.Numeral

namespace Dynarec68k.Json

def isBlank (c : Char) : Bool :=
  c == ' ' || c == '\n' || c == '\t' || c == '\r'

def skipBlanks (text : List Char) : List Char :=
  text.dropWhile isBlank

def readDigits (text : List Char) : Option (List Char × List Char) :=
  let digits := text.takeWhile Numeral.isDecimal
  if digits.isEmpty then none else some (digits, text.dropWhile Numeral.isDecimal)

def readInteger (text : List Char) : Option (List Char × List Char) :=
  match readDigits text with
  | some ('0' :: _ :: _, _) => none
  | other => other

def readFraction (text : List Char) : Option (Bool × List Char) :=
  match text with
  | '.' :: rest => (readDigits rest).map fun (_, rest) => (true, rest)
  | _ => some (false, text)

def readExponentDigits (text : List Char) : Option (List Char × List Char) :=
  match text with
  | '+' :: rest => readDigits rest
  | '-' :: rest => readDigits rest
  | _ => readDigits text

def readExponent (text : List Char) : Option (Bool × List Char) :=
  match text with
  | 'e' :: rest => (readExponentDigits rest).map fun (_, rest) => (true, rest)
  | 'E' :: rest => (readExponentDigits rest).map fun (_, rest) => (true, rest)
  | _ => some (false, text)

def readUnsigned (text : List Char) : Option (Option Nat × List Char) := do
  let (digits, rest) ← readInteger text
  let (fraction, rest) ← readFraction rest
  let (exponent, rest) ← readExponent rest
  let value ← Numeral.ofDigits? 10 Numeral.decimalValue? digits
  return (if fraction || exponent || decide (0x10000000000000000 ≤ value) then none else some value, rest)

def readNumber (text : List Char) : Option (Json × List Char) :=
  match text with
  | '-' :: rest => (readUnsigned rest).map fun (_, rest) => (.number none, rest)
  | _ => (readUnsigned text).map fun (natural, rest) => (.number natural, rest)

inductive Piece where
  | char (c : Char)
  | unit (value : Nat)
  deriving DecidableEq, Repr

def unit? (a b c d : Char) : Option Nat :=
  Numeral.ofDigits? 16 Numeral.hexValue? [a, b, c, d]

def escaped? : Char → Option Char
  | '"' => some '"'
  | '\\' => some '\\'
  | '/' => some '/'
  | 'b' => some '\x08'
  | 'f' => some '\x0c'
  | 'n' => some '\n'
  | 'r' => some '\r'
  | 't' => some '\t'
  | _ => none

def readPieces : List Char → Option (List Piece × List Char)
  | [] => none
  | '"' :: rest => some ([], rest)
  | '\\' :: 'u' :: a :: b :: c :: d :: rest =>
    match unit? a b c d, readPieces rest with
    | some value, some (pieces, rest) => some (.unit value :: pieces, rest)
    | _, _ => none
  | '\\' :: letter :: rest =>
    match escaped? letter, readPieces rest with
    | some c, some (pieces, rest) => some (.char c :: pieces, rest)
    | _, _ => none
  | c :: rest =>
    if c.toNat < 0x20 then none
    else (readPieces rest).map fun (pieces, rest) => (.char c :: pieces, rest)

def isHighSurrogate (value : Nat) : Bool :=
  decide (0xD800 ≤ value) && decide (value < 0xDC00)

def isLowSurrogate (value : Nat) : Bool :=
  decide (0xDC00 ≤ value) && decide (value < 0xE000)

/-- The text of pieces, if surrogates come in pairs. -/
def joinPieces : List Piece → Option (List Char)
  | [] => some []
  | .char c :: rest => (joinPieces rest).map (c :: ·)
  | .unit high :: .unit low :: rest =>
    if isHighSurrogate high then
      if isLowSurrogate low then
        (joinPieces rest).map
          (Char.ofNat (0x10000 + 0x400 * (high - 0xD800) + (low - 0xDC00)) :: ·)
      else none
    else if isLowSurrogate high then none
    else (joinPieces (.unit low :: rest)).map (Char.ofNat high :: ·)
  | .unit value :: rest =>
    if isHighSurrogate value || isLowSurrogate value then none
    else (joinPieces rest).map (Char.ofNat value :: ·)

def readString (text : List Char) : Option (Option String × List Char) :=
  (readPieces text).map fun (pieces, rest) => ((joinPieces pieces).map String.ofList, rest)

def readKey (text : List Char) : Option (Option String × List Char) :=
  match text with
  | '"' :: rest =>
    match readString rest with
    | some (key, rest) =>
      match skipBlanks rest with
      | ':' :: rest => some (key, skipBlanks rest)
      | _ => none
    | none => none
  | _ => none

def readWord (word : String) (value : Json) (text : List Char) : Option (Json × List Char) :=
  if word.toList.isPrefixOf text then some (value, text.drop word.length) else none

mutual

def readValue : Nat → List Char → Option (Json × List Char)
  | 0, _ => none
  | fuel + 1, text =>
    match text with
    | 'n' :: _ => readWord "null" .null text
    | 't' :: _ => readWord "true" (.bool true) text
    | 'f' :: _ => readWord "false" (.bool false) text
    | '"' :: rest => (readString rest).map fun (text, rest) => (.string text, rest)
    | '[' :: rest =>
      match skipBlanks rest with
      | ']' :: rest => some (.array [], rest)
      | rest => (readItems fuel rest).map fun (items, rest) => (.array items, rest)
    | '\x7b' :: rest =>
      match skipBlanks rest with
      | '\x7d' :: rest => some (.object [], rest)
      | rest => (readMembers fuel rest).map fun (members, rest) => (.object members, rest)
    | _ => readNumber text

def readItems : Nat → List Char → Option (List Json × List Char)
  | 0, _ => none
  | fuel + 1, text =>
    match readValue fuel text with
    | none => none
    | some (item, rest) =>
      match skipBlanks rest with
      | ']' :: rest => some ([item], rest)
      | ',' :: rest =>
        (readItems fuel (skipBlanks rest)).map fun (items, rest) => (item :: items, rest)
      | _ => none

def readMembers : Nat → List Char → Option (List (Option String × Json) × List Char)
  | 0, _ => none
  | fuel + 1, text =>
    match readKey text with
    | none => none
    | some (key, rest) =>
      match readValue fuel rest with
      | none => none
      | some (value, rest) =>
        match skipBlanks rest with
        | '\x7d' :: rest => some ([(key, value)], rest)
        | ',' :: rest =>
          (readMembers fuel (skipBlanks rest)).map fun (members, rest) =>
            ((key, value) :: members, rest)
        | _ => none

end

def parse? (text : String) : Option Json :=
  let chars := skipBlanks text.toList
  match readValue (2 * chars.length + 1) chars with
  | some (value, rest) => if (skipBlanks rest).isEmpty then some value else none
  | none => none

end Dynarec68k.Json
