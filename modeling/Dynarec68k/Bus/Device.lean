namespace Dynarec68k

inductive DeviceAction where
  | proceed
  /-- Return to the caller at the next instruction boundary. -/
  | yield
  deriving DecidableEq, Repr

namespace DeviceAction

/-- One of two writes asking to yield is enough. -/
def or : DeviceAction → DeviceAction → DeviceAction
  | .proceed, .proceed => .proceed
  | _, _ => .yield

end DeviceAction

/-- Reads are a word wide; a byte read takes half of the word around it. Addresses are full guest
addresses. -/
structure Device where
  registers : List UInt32
  onRead16 : List UInt32 → UInt32 → UInt16 × List UInt32
  onWrite16 : List UInt32 → UInt32 → UInt16 → DeviceAction × List UInt32
  onWrite8 : List UInt32 → UInt32 → UInt8 → DeviceAction × List UInt32

namespace Device

def read16 (device : Device) (address : UInt32) : UInt16 × Device :=
  let (value, registers) := device.onRead16 device.registers address
  (value, { device with registers := registers })

def write16 (device : Device) (address : UInt32) (value : UInt16) : DeviceAction × Device :=
  let (action, registers) := device.onWrite16 device.registers address value
  (action, { device with registers := registers })

def write8 (device : Device) (address : UInt32) (value : UInt8) : DeviceAction × Device :=
  let (action, registers) := device.onWrite8 device.registers address value
  (action, { device with registers := registers })

/-- A counter: every read answers the count and moves it on by `step`. Writes change nothing;
those to the addresses `yields` picks ask the processor to return. -/
def counter (value step : UInt16) (yields : UInt32 → Bool) : Device where
  registers := [value.toUInt32]
  onRead16 := fun registers _ =>
    let count := (registers.headD 0).toUInt16
    (count, [(count + step).toUInt32])
  onWrite16 := fun registers address _ =>
    (if yields address then .yield else .proceed, registers)
  onWrite8 := fun registers address _ =>
    (if yields address then .yield else .proceed, registers)

end Device

end Dynarec68k
