import Dynarec68k.Cpu.Timing

namespace Dynarec68k.Cpu

variable (cpu : Cpu)

/-- What follows a write of `bytes` bytes at `address`: a device may ask to return, and code
compiled from the bytes is redirected. -/
def afterWrite (address : UInt32) (bytes : Nat) (action : DeviceAction) : Cpu :=
  let cpu :=
    match action with
    | .yield => cpu.requestReturn
    | .proceed => cpu
  { cpu with store := cpu.store.noteWrite cpu.config (cpu.memory.canonical address) bytes }

def write8 (address : UInt32) (value : UInt8) : Cpu :=
  let (action, memory) := cpu.memory.write8 address value
  { cpu with memory := memory }.afterWrite address 1 action

def write16 (address : UInt32) (value : UInt16) : Cpu :=
  let (action, memory) := cpu.memory.write16 address value
  { cpu with memory := memory }.afterWrite address 2 action

def write32 (address : UInt32) (value : UInt32) : Cpu :=
  let (action, memory) := cpu.memory.write32 address value
  { cpu with memory := memory }.afterWrite address 4 action

def write32LowFirst (address : UInt32) (value : UInt32) : Cpu :=
  let (action, memory) := cpu.memory.write32LowFirst address value
  { cpu with memory := memory }.afterWrite address 4 action

def load (cpu : Cpu) (address : UInt32) : List UInt16 → Cpu
  | [] => cpu
  | word :: rest => (cpu.write16 address word).load (address + 2) rest

def invalidate (start stop : UInt32) : Cpu :=
  { cpu with
    store := cpu.store.redirectRange cpu.config cpu.memory.canonical start stop }

def selectBank (start : UInt32) (bank : Nat) : Except CpuError Cpu :=
  match cpu.memory.selectBank start bank with
  | .error error => .error (.badMemoryMap error)
  | .ok (none, _) => .ok cpu
  | .ok (some (first, stop), memory) =>
    let switched := { cpu with
      memory := memory
      counters := { cpu.counters with bankSwitches := cpu.counters.bankSwitches + 1 } }
    .ok (switched.invalidate first stop)

end Dynarec68k.Cpu
