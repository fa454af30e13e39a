import Dynarec68k.Bus.MemoryMap
import Dynarec68k.Config
import Dynarec68k.Host.State

namespace Dynarec68k

inductive CpuError where
  | outOfBounds (address : UInt32)
  | doubleFault (vector : Nat) (target : UInt32)
  | stateTooShort (size needed : Nat)
  | badMemoryMap (error : MapError)
  | invalidConfig (error : ConfigError)
  /-- The native backend has no room for this many operations. -/
  | nativeCode (size : Nat)
  | hostFault (site : Host.CodePtr) (reason : Host.FaultReason)
  deriving DecidableEq, Repr

/-- Operations whose machine code fits the region of the native backend: 64 MiB, of which 256 bytes
are taken, at 32 bytes for each of them. -/
def nativeCapacity : Nat :=
  2097144

def CpuError.message : CpuError → String
  | .outOfBounds address => s!"execution out of bounds at ${Hex.upperPadded 6 address.toNat}"
  | .doubleFault vector target =>
      s!"double fault: vector {vector} points to odd address ${Hex.upperPadded 8 target.toNat}"
  | .stateTooShort size needed => s!"state buffer holds {size} bytes, {needed} needed"
  | .badMemoryMap error => s!"bad memory map: {error.message}"
  | .invalidConfig error => s!"invalid configuration: {error.message}"
  | .nativeCode size =>
      s!"native code: {size} micro-ops do not fit the {nativeCapacity} slots of the region"
  | .hostFault site reason => s!"host fault at native index {site.toNat}: {reason.message}"

end Dynarec68k
