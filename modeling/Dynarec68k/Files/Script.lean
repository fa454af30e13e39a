namespace Dynarec68k

inductive FileError where
  | notFound
  | notDirectory
  | isDirectory
  | notText
  | zeroInName
  | nameTooLong
  | other (text : String)
  deriving DecidableEq, Repr

def FileError.message : FileError → String
  | .notFound => "No such file or directory (os error 2)"
  | .notDirectory => "Not a directory (os error 20)"
  | .isDirectory => "Is a directory (os error 21)"
  | .notText => "stream did not contain valid UTF-8"
  | .zeroInName => "file name contained an unexpected NUL byte"
  | .nameTooLong => "File name too long (os error 36)"
  | .other text => text

inductive Script (α : Type) where
  | done (value : α)
  | read (path : String) (next : Except FileError ByteArray → Script α)
  | write (path : String) (contents : ByteArray) (next : Except FileError Unit → Script α)

namespace Script

variable {α β : Type}

def bind (script : Script α) (f : α → Script β) : Script β :=
  match script with
  | .done value => f value
  | .read path next => .read path fun answer => (next answer).bind f
  | .write path contents next => .write path contents fun answer => (next answer).bind f

instance : Monad Script where
  pure := .done
  bind := bind

def readFile (path : String) : Script (Except FileError ByteArray) :=
  .read path .done

def writeFile (path : String) (contents : ByteArray) : Script (Except FileError Unit) :=
  .write path contents .done

def readText (path : String) : Script (Except FileError String) := do
  match ← readFile path with
  | .error error => return .error error
  | .ok contents =>
    match String.fromUTF8? contents with
    | some text => return .ok text
    | none => return .error .notText

end Script

end Dynarec68k
