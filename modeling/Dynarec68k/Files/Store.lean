import Dynarec68k.Files.Path
import Dynarec68k.Files.Script

namespace Dynarec68k

/-- The names on the way from the working directory. Names `..` in front climb out of it, and a name
`/` in front starts at the root. -/
abbrev FilePlace := List String

namespace FilePlace

def root : FilePlace :=
  ["/"]

/-- The null device, and the standard input, of which nothing is left. They give nothing and keep
nothing. -/
def emptyDevices : List FilePlace :=
  [["/", "dev", "null"], ["/", "dev", "stdin"]]

def isWorking (place : FilePlace) : Bool :=
  place.all (· == "..")

def isUsual (place : FilePlace) : Bool :=
  match place with
  | ["/"] => true
  | ["/", name] =>
    ["bin", "boot", "dev", "etc", "home", "lib", "media", "mnt", "opt", "proc", "root", "run",
      "sbin", "srv", "sys", "tmp", "usr", "var"].contains name
  | _ => false

def above (place : FilePlace) : FilePlace :=
  if place.isWorking then place ++ [".."]
  else if place = root then root
  else place.dropLast

def follow (place : FilePlace) (name : String) : FilePlace :=
  if name = "." then place
  else if name = ".." then place.above
  else place ++ [name]

def start (path : String) : FilePlace :=
  if Path.isAbsolute path then root else []

end FilePlace

structure FileStore where
  files : List (FilePlace × ByteArray)

namespace FileStore

variable (store : FileStore)

def empty : FileStore :=
  ⟨FilePlace.emptyDevices.map fun device => (device, .empty)⟩

def nameLimit : Nat := 255

def pathLimit : Nat := 4095

def contents? (place : FilePlace) : Option ByteArray :=
  store.files.lookup place

def isDirectory (place : FilePlace) : Bool :=
  place.isWorking || place.isUsual
    || store.files.any fun (file, _) => place.isPrefixOf file && decide (place.length < file.length)

def insert (place : FilePlace) (contents : ByteArray) : FileStore :=
  ⟨(place, contents) :: store.files.filter fun (file, _) => file != place⟩

def add (path : String) (contents : ByteArray) : FileStore :=
  store.insert ((Path.names path).foldl FilePlace.follow (FilePlace.start path)) contents

def enter (place : FilePlace) (name : String) : Except FileError FilePlace :=
  if store.isDirectory place then
    if name.utf8ByteSize ≤ nameLimit then .ok (place.follow name) else .error .nameTooLong
  else if (store.contents? place).isSome then .error .notDirectory
  else .error .notFound

def locate (path : String) (names : List String) : Except FileError FilePlace :=
  if path.toList.contains '\x00' then .error .zeroInName
  else if path.isEmpty then .error .notFound
  else if path.utf8ByteSize ≤ pathLimit then names.foldlM store.enter (FilePlace.start path)
  else .error .nameTooLong

def read (path : String) : Except FileError ByteArray :=
  match store.locate path (Path.namesToRead path) with
  | .error error => .error error
  | .ok place =>
    if store.isDirectory place then .error .isDirectory
    else
      match store.contents? place with
      | some contents => .ok contents
      | none => .error .notFound

def write (path : String) (contents : ByteArray) : Except FileError Unit × FileStore :=
  match store.locate path (Path.namesToWrite path) with
  | .error error => (.error error, store)
  | .ok place =>
    if store.isDirectory place then (.error .isDirectory, store)
    else if FilePlace.emptyDevices.contains place then (.ok (), store)
    else (.ok (), store.insert place contents)

end FileStore

def Script.runOn {α : Type} (store : FileStore) : Script α → α × FileStore
  | .done value => (value, store)
  | .read path next => (next (store.read path)).runOn store
  | .write path contents next =>
    let (answer, store) := store.write path contents
    (next answer).runOn store

end Dynarec68k
