import Dynarec68k.Host.Operation

namespace Dynarec68k.Host

structure CodeBuffer where
  ops : Array Op
  /-- Where output goes while code is being overwritten. -/
  cursor : Option Nat
  /-- Positions overwritten since they were last taken, once somebody asked for them. -/
  overwritten : Option (Array CodePtr)

namespace CodeBuffer

def empty : CodeBuffer where
  ops := #[]
  cursor := none
  overwritten := none

def size (code : CodeBuffer) : Nat :=
  code.ops.size

def op? (code : CodeBuffer) (site : CodePtr) : Option Op :=
  code.ops[site.toNat]?

def here (code : CodeBuffer) : CodePtr :=
  (code.cursor.getD code.ops.size).toUInt32

def trackOverwritten (code : CodeBuffer) : CodeBuffer :=
  { code with overwritten := some (code.overwritten.getD #[]) }

def takeOverwritten (code : CodeBuffer) : Array CodePtr × CodeBuffer :=
  (code.overwritten.getD #[], { code with overwritten := code.overwritten.map fun _ => #[] })

def noteOverwritten (code : CodeBuffer) (site : Nat) : CodeBuffer :=
  { code with overwritten := code.overwritten.map fun sites => sites.push site.toUInt32 }

def replace (code : CodeBuffer) (site : Nat) (op : Op) : CodeBuffer :=
  { code with ops := code.ops.setIfInBounds site op }.noteOverwritten site

def emit (code : CodeBuffer) (op : Op) : CodeBuffer :=
  match code.cursor with
  | none => { code with ops := code.ops.push op }
  | some site =>
    let written :=
      if site < code.ops.size then code.replace site op
      else { code with ops := code.ops.push op }
    { written with cursor := some (site + 1) }

def emitAll (code : CodeBuffer) (ops : List Op) : CodeBuffer :=
  ops.foldl emit code

/-- Displacement from the next position to a target; zero while the target is not known. -/
def relative (code : CodeBuffer) (target : Option CodePtr) : Int32 :=
  match target with
  | some target => relativeTo code.here target
  | none => 0

def emitJumpIf (code : CodeBuffer) (test : Test) (target : Option CodePtr) : CodeBuffer :=
  code.emit (.jumpIf test (code.relative target))

def emitJump (code : CodeBuffer) (target : Option CodePtr) : CodeBuffer :=
  code.emit (.jump (code.relative target))

def emitCall (code : CodeBuffer) (target : CodePtr) : CodeBuffer :=
  code.emit (.call (code.relative (some target)))

def patchBranch (code : CodeBuffer) (site target : CodePtr) : CodeBuffer :=
  match code.op? site with
  | some (.jumpIf test _) => code.replace site.toNat (.jumpIf test (relativeTo site target))
  | some (.jump _) => code.replace site.toNat (.jump (relativeTo site target))
  | some (.call _) => code.replace site.toNat (.call (relativeTo site target))
  | _ => code

def overwriting {α : Type} (code : CodeBuffer) (site : CodePtr)
    (emission : CodeBuffer → α × CodeBuffer) : α × CodeBuffer :=
  let saved := code.cursor
  let (result, code) := emission { code with cursor := some site.toNat }
  (result, { code with cursor := saved })

def overwrite (code : CodeBuffer) (site : CodePtr) (emission : CodeBuffer → CodeBuffer) :
    CodeBuffer :=
  (code.overwriting site fun code => ((), emission code)).2

end CodeBuffer

end Dynarec68k.Host
