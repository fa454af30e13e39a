import Dynarec68k.Codegen.Instruction
import Dynarec68k.Compiled.EntryTable
import Dynarec68k.Host.CodeBuffer
import Std.Data.HashSet

namespace Dynarec68k

open Host

structure PendingLink where
  target : UInt32
  site : CodePtr
  deriving DecidableEq, Repr

structure CompileCounters where
  blocks : Nat
  instructions : Nat
  recompiled : Nat
  redirected : Nat
  linked : Nat
  deriving DecidableEq, Repr

structure CodeStore where
  code : CodeBuffer
  entries : EntryTable
  /-- Oldest first. -/
  pending : Array PendingLink
  regions : Std.HashSet UInt32
  counters : CompileCounters
  /-- A search for entries to redirect goes on for ever. -/
  endless : Bool

inductive EntryKind where
  | boundary
  | redirected
  | breakpoint
  deriving DecidableEq, Repr

namespace CodeStore

variable (store : CodeStore)

def initial : CodeStore where
  code := CodeBuffer.empty.emitAll Gate.code
  entries := .empty
  pending := #[]
  regions := ∅
  counters := ⟨0, 0, 0, 0, 0⟩
  endless := false

def lookup (address : UInt32) : Option CodePtr :=
  store.entries.lookup address

def emit (op : Host.Op) : CodeStore :=
  { store with code := store.code.emit op }

def emitLink (target : UInt32) : CodeStore :=
  match store.lookup target with
  | some native => { store with code := store.code.emitJump (some native) }
  | none =>
    let site := store.code.here
    { store with
      code := store.code.emitJump none
      pending := store.pending.push ⟨target, site⟩ }

def emitItem (canonical : UInt32 → UInt32) (store : CodeStore) : Item → CodeStore
  | .op op => store.emit op
  | .call gate => { store with code := store.code.emitCall gate.entry }
  | .goto target => store.emitLink (canonical target)

def emitFragment (canonical : UInt32 → UInt32) (fragment : Fragment) : CodeStore :=
  fragment.foldl (emitItem canonical) store

def overwriteWith (site : CodePtr) (fragment : Fragment) : CodeStore :=
  let saved := store.code.cursor
  let written :=
    { store with code := { store.code with cursor := some site.toNat } }.emitFragment id fragment
  { written with code := { written.code with cursor := saved } }

def linkAll (entries : EntryTable) (links : Array PendingLink) (code : CodeBuffer) : CodeBuffer :=
  links.foldl
    (fun code link =>
      match entries.lookup link.target with
      | some native => code.patchBranch link.site native
      | none => code) code

def linkPending : CodeStore → CodeStore
  | ⟨code, entries, pending, regions, counters, endless⟩ =>
    let waiting := pending.filter fun link => (entries.lookup link.target).isNone
    { code := linkAll entries pending code
      entries := entries
      pending := waiting
      regions := regions
      counters := { counters with linked := counters.linked + (pending.size - waiting.size) }
      endless := endless }

def entryKind (native : CodePtr) : EntryKind :=
  let site := native + 1
  match store.code.op? site with
  | some (.jump rel) =>
    if (Host.Op.jump rel).branchTarget? site = some Gate.refresh.entry then .redirected else .boundary
  | some (.call rel) =>
    if (Host.Op.call rel).branchTarget? site = some Gate.breakpoint.entry then .breakpoint
    else .boundary
  | _ => .boundary

def redirect (address : UInt32) (native : CodePtr) : CodeStore :=
  match store.entryKind native with
  | .redirected => store
  | _ =>
    { store with
      code := store.code.overwrite native fun code =>
        (code.emit (.mov (.imm address) (.reg Role.scratch1) .long)).emitJump
          (some Gate.refresh.entry)
      counters := { store.counters with redirected := store.counters.redirected + 1 } }

/-- Put a breakpoint on the entry of `address`. An entry that is redirected is left alone: the
breakpoint is put on its new code when it is compiled again. -/
def setBreakpoint (address : UInt32) (native : CodePtr) : CodeStore :=
  match store.entryKind native with
  | .boundary =>
    store.overwriteWith native (Codegen.load address Role.scratch1 ++ Codegen.call .breakpoint)
  | _ => store

def restoreBoundary (address : UInt32) (native : CodePtr) : CodeStore :=
  store.overwriteWith native (Codegen.boundary address)

def regionOf (config : Config) (address : UInt32) : UInt32 :=
  (address &&& config.addressMask) >>> config.trackingShift

def markRegions (config : Config) (address : UInt32) (length : Nat) : CodeStore :=
  let first := regionOf config address
  let last := regionOf config (address + (max length 1 - 1).toUInt32)
  { store with
    regions := (List.range (last.toNat - first.toNat + 1)).foldl
      (fun regions i => regions.insert (first + i.toUInt32)) store.regions }

def isMarked (config : Config) (address : UInt32) : Bool :=
  store.regions.contains (regionOf config address)

def redirectAt (address : UInt32) : CodeStore :=
  match store.lookup address with
  | some native => store.redirect address native
  | none => store

/-- Redirect the entries at `address` and every second address after it, as long as these are below
`stop`. If `stop` is the last address of all, the next one after it is 0, and so on without end. -/
def redirectEntries (store : CodeStore) (address stop : UInt32) : CodeStore :=
  if address < stop then
    let store := store.redirectAt address
    if address < address + 2 then store.redirectEntries (address + 2) stop
    else { store with endless := true }
  else store
termination_by stop.toNat - address.toNat
decreasing_by
  rename_i hstop hnext
  rw [UInt32.lt_iff_toNat_lt] at hstop hnext
  omega

/-- Redirect every entry whose instruction can reach into `bytes` bytes from `address` on. An
instruction that starts among the words of another has no continuation of its own there, so the
search starts one longest instruction before. -/
def redirectWindow (config : Config) (address : UInt32) (bytes : Nat) : CodeStore :=
  let first := address &&& 0xFFFFFFFE
  let longest := config.model.maxInstructionBytes
  let start :=
    min ((store.entries.instructionStart first longest).getD first).toNat
      (first.toNat - (longest - 2))
  store.redirectEntries start.toUInt32 (address + bytes.toUInt32)

def noteWrite (config : Config) (address : UInt32) (bytes : Nat) : CodeStore :=
  if store.isMarked config address
      || store.isMarked config (address + (bytes - 1).toUInt32) then
    store.redirectWindow config address bytes
  else store

def redirectWords (store : CodeStore) (config : Config) (canonical : UInt32 → UInt32)
    (address : UInt32) : Nat → CodeStore
  | 0 => store
  | count + 1 =>
    let onBus := canonical address
    let store :=
      if store.isMarked config onBus then store.redirectWindow config onBus 2 else store
    store.redirectWords config canonical (address + 2) count

def redirectRange (config : Config) (canonical : UInt32 → UInt32) (start stop : UInt32) : CodeStore :=
  if stop ≤ start then store
  else
    let first := start &&& 0xFFFFFFFE
    store.redirectWords config canonical first ((stop.toNat - first.toNat + 1) / 2)

end CodeStore

end Dynarec68k
