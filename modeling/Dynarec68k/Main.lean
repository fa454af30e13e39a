import Dynarec68k.CommandLine.Program

namespace Dynarec68k

/-- The system's code of an error comes with either sign. -/
def FileError.ofSystem (error : IO.Error) : FileError :=
  match error with
  | .noFileOrDirectory _ _ _ => .notFound
  | .inappropriateType _ code _ =>
    if code = 20 ∨ code = -20 then .notDirectory
    else if code = 21 ∨ code = -21 then .isDirectory
    else .other (toString error)
  | .invalidArgument _ code _ =>
    if code = 36 ∨ code = -36 then .nameTooLong else .other (toString error)
  | _ => .other (toString error)

def answered {α : Type} (access : IO α) : IO (Except FileError α) := do
  try
    return .ok (← access)
  catch error =>
    return .error (.ofSystem error)

def Script.runOnDisk {α : Type} : Script α → IO α
  | .done value => return value
  | .read path next => do
    let answer ← answered (IO.FS.readBinFile path)
    (next answer).runOnDisk
  | .write path contents next => do
    let answer ← answered (IO.FS.writeBinFile path contents)
    (next answer).runOnDisk

end Dynarec68k

def main (arguments : List String) : IO UInt32 := do
  let report ← (Dynarec68k.CommandLine.program arguments).runOnDisk
  for line in report.output do
    IO.println line
  for line in report.errors do
    IO.eprintln line
  return report.status
