import Dynarec68k.Bus.MemoryMap
import Dynarec68k.Compiled.CodeStore
import Dynarec68k.Isa.Decode

/-!
Compiling guest code on demand. A block is compiled one instruction at a time until nothing is
reached by falling through, or what comes next is compiled already. Then come the targets of the
branches that wait, oldest first, until none is left.
-/

namespace Dynarec68k

open Host

structure GuestView where
  config : Config
  memory : MemoryMap
  hasBreakpoint : UInt32 → Bool

/-- Passes enough for any memory: every pass gives an even address its first entry. -/
def compileFuel : Nat :=
  0x100000000

namespace GuestView

variable (view : GuestView)

def canonical (address : UInt32) : UInt32 :=
  view.memory.canonical address

def instructionAt (address : UInt32) : Instruction :=
  Instruction.decode view.config.model address
    (view.memory.fetchWords address Model.maxInstructionWords)

def following (inst : Instruction) : UInt32 :=
  view.canonical inst.nextAddress

end GuestView

namespace CodeStore

variable (store : CodeStore) (view : GuestView)

def emitInstruction (inst : Instruction) (native : CodePtr) : CodeStore :=
  { store with entries := store.entries.recordOrigin native inst.address }.emitFragment
    view.canonical (inst.code view.config)

/-- Compile an instruction at a canonical address to `native`, where the next code goes, over an
entry that exists if `fresh` is false. -/
def compileInstruction (inst : Instruction) (native : CodePtr) (fresh : Bool) : CodeStore :=
  let store := store.emitInstruction view inst native
  let store := { store with
    entries :=
      if fresh then (store.entries.install inst.address native inst.length).1
      else store.entries.replace inst.address native inst.length
    counters := { store.counters with instructions := store.counters.instructions + 1 } }
  let store :=
    if view.memory.isTracked inst.address then
      store.markRegions view.config inst.address inst.length
    else store
  if view.hasBreakpoint inst.address then store.setBreakpoint inst.address native else store

def compileMissing (address : UInt32) (native : CodePtr) : CodeStore :=
  let store := store.emitFragment view.canonical (Codegen.missing address)
  { store with entries := (store.entries.install address native 2).1 }

def compileFrom (store : CodeStore) (view : GuestView) (address : UInt32) : Nat → CodeStore
  | 0 => store
  | fuel + 1 =>
    if view.memory.isExecutable address then
      let inst := view.instructionAt address
      let store := store.compileInstruction view inst store.code.here true
      if inst.isTerminal then store
      else
        let next := view.following inst
        match store.lookup next with
        | some native => { store with code := store.code.emitJump (some native) }
        | none => store.compileFrom view next fuel
    else store.compileMissing view address store.code.here

def compileBlock (start : UInt32) : CodePtr × CodeStore :=
  let address := view.canonical start
  match store.lookup address with
  | some native => (native, store)
  | none =>
    let native := store.code.here
    let store := { store with
      counters := { store.counters with blocks := store.counters.blocks + 1 } }
    (native, store.compileFrom view address compileFuel)

def compilePending (store : CodeStore) (view : GuestView) : Nat → CodeStore
  | 0 => store
  | fuel + 1 =>
    let store := store.linkPending
    match store.pending[0]? with
    | none => store
    | some link => (store.compileBlock view link.target).2.compilePending view fuel

def locate (address : UInt32) : CodePtr × CodeStore :=
  let address := view.canonical address
  match store.lookup address with
  | some native => (native, store)
  | none =>
    let (native, store) := store.compileBlock view address
    (native, store.compilePending view compileFuel)

def recompile (inst : Instruction) (native : CodePtr) : CodeStore :=
  let store := { store with
    counters := { store.counters with recompiled := store.counters.recompiled + 1 } }
  let store := store.compileInstruction view inst native false
  let store := if inst.isTerminal then store else store.emitLink (view.following inst)
  store.compilePending view compileFuel

/-- Compile an instruction again after it was written to. Its old entry becomes a jump to the new
code, so that branches to it stay right. -/
def refresh (address : UInt32) : CodePtr × CodeStore :=
  let address := view.canonical address
  let native := store.code.here
  let old := store.lookup address
  let store := store.recompile view (view.instructionAt address) native
  match old with
  | some old =>
    (native,
      { store with code := store.code.overwrite old fun code => code.emitJump (some native) })
  | none => (native, store)

end CodeStore

end Dynarec68k
