import Dynarec68k.Cpu.Breakpoint
import Dynarec68k.Guest.Arithmetic

namespace Dynarec68k.Cpu

open Host

/-- How code goes on after a service, the processor, and what the service leaves in the first
scratch register. -/
structure Served where
  outcome : Outcome
  cpu : Cpu
  result : Option UInt32

namespace Served

def value (cpu : Cpu) (value : UInt32) : Served :=
  ⟨.proceed, cpu, some value⟩

def done (cpu : Cpu) : Served :=
  ⟨.proceed, cpu, none⟩

def ofOutcome (result : Outcome × Cpu) : Served :=
  ⟨result.1, result.2, none⟩

def ofEntry (result : Except CpuError CodePtr × Cpu) : Served :=
  ⟨.ofEntry result.1, result.2, none⟩

end Served

/-- The instruction whose code made the innermost call. What counts is the call itself: the
operation after it may belong to the next instruction. -/
def caller? (cpu : Cpu) (host : State) : Option UInt32 :=
  match host.caller? with
  | some back => if back = 0 then none else cpu.store.entries.origin? (back - 1)
  | none => none

def oddAccess (cpu : Cpu) (host : State) (address : UInt32) (kind : FaultKind) : Served :=
  .ofEntry (cpu.takeAddressError ⟨address, kind, cpu.caller? host⟩)

def spendBus (cpu : Cpu) (accesses : UInt32) : Cpu :=
  { cpu with cycle := cpu.cycle + accesses * cpu.config.busCycles }

def serveRead (cpu : Cpu) (host : State) (size : Size) (address : UInt32) : Served :=
  if size ≠ .byte ∧ address &&& 1 ≠ 0 then cpu.oddAccess host address .read
  else
    match size with
    | .byte =>
      let cpu := cpu.spendBus 1
      let (value, memory) := cpu.memory.read8 address
      .value { cpu with memory := memory } value.toUInt32
    | .word =>
      let (value, cpu) := (cpu.spendBus 1).read16 address
      .value cpu value.toUInt32
    | .long =>
      let (value, cpu) := (cpu.spendBus 2).read32 address
      .value cpu value

def serveWrite (cpu : Cpu) (host : State) (size : Size) (lowFirst : Bool) (address value : UInt32) :
    Served :=
  if size ≠ .byte ∧ address &&& 1 ≠ 0 then cpu.oddAccess host address .write
  else
    match size with
    | .byte => .done ((cpu.spendBus 1).write8 address value.toUInt8)
    | .word => .done ((cpu.spendBus 1).write16 address value.toUInt16)
    | .long =>
      if lowFirst then .done ((cpu.spendBus 2).write32LowFirst address value)
      else .done ((cpu.spendBus 2).write32 address value)

def setLogicFlags (cpu : Cpu) (value : UInt32) : Cpu :=
  (((cpu.setFlag .n (value &&& 0x80000000 != 0)).setFlag .z (value == 0)).setFlag .v false).setFlag
    .c false

def serveMultiply (cpu : Cpu) (signed : Bool) (source destination : UInt16) : Served :=
  let product :=
    if signed then Arithmetic.mulSigned destination source
    else Arithmetic.mulUnsigned destination source
  let clocks :=
    if signed then Arithmetic.mulSignedClocks source else Arithmetic.mulUnsignedClocks source
  .value ((cpu.spend clocks).setLogicFlags product) product

/-- An overflow sets V and N and leaves the destination as it is. -/
def quotientFlags (cpu : Cpu) : Arithmetic.Quotient → Cpu
  | .value value =>
    (((cpu.setFlag .n (value &&& 0x8000 != 0)).setFlag .z (value &&& 0xFFFF == 0)).setFlag .v
      false).setFlag .c false
  | .overflow => (((cpu.setFlag .n true).setFlag .z false).setFlag .v true).setFlag .c false

def serveDivide (cpu : Cpu) (signed : Bool) (divisor : UInt16) (dividend next : UInt32) : Served :=
  if divisor = 0 then
    .ofEntry ((cpu.setFlag .c false).takeException ExceptionVector.zeroDivide next)
  else
    let quotient :=
      if signed then Arithmetic.divSigned dividend.toInt32 divisor.toInt16
      else Arithmetic.divUnsigned dividend divisor
    let clocks :=
      if signed then Arithmetic.divSignedClocks dividend.toInt32 divisor.toInt16
      else Arithmetic.divUnsignedClocks dividend divisor
    let cpu := (cpu.spend clocks).quotientFlags quotient
    match quotient with
    | .value value => .value cpu value
    | .overflow => .value cpu dividend

/-- Z is only ever cleared, so that it tells about a whole chain of bytes. -/
def decimalFlags (cpu : Cpu) (result : Arithmetic.DecimalResult) : Cpu :=
  let cpu := (cpu.setFlag .x result.carry).setFlag .c result.carry
  let cpu := if result.value = 0 then cpu else cpu.setFlag .z false
  (cpu.setFlag .n (result.value &&& 0x80 != 0)).setFlag .v result.overflow

def serveDecimal (cpu : Cpu) (subtract : Bool) (source destination : UInt8) : Served :=
  let extend := cpu.registers.flag .x
  let result :=
    if subtract then Arithmetic.decimalSub destination source extend
    else Arithmetic.decimalAdd source destination extend
  .value (cpu.decimalFlags result) result.value.toUInt32

def serve (cpu : Cpu) (host : State) (service : Service) : Served :=
  let first := host.reg Role.scratch1
  let second := host.reg Role.scratch2
  match service with
  | .read8 => cpu.serveRead host .byte first
  | .read16 => cpu.serveRead host .word first
  | .read32 => cpu.serveRead host .long first
  | .write8 => cpu.serveWrite host .byte false second first
  | .write16 => cpu.serveWrite host .word false second first
  | .write32 => cpu.serveWrite host .long false second first
  | .write32LowFirst => cpu.serveWrite host .long true second first
  | .synchronize => .ofOutcome (cpu.synchronize first)
  | .locate =>
    match cpu.resolve first (cpu.caller? host) with
    | (.ok native, cpu) => .value cpu native
    | (.error error, cpu) => ⟨.fail error, cpu, none⟩
  | .refresh =>
    let (native, cpu) := cpu.refresh first
    ⟨.jump native, cpu, none⟩
  | .breakpoint => .ofOutcome (cpu.hitBreakpoint first)
  | .outOfBounds => ⟨.fail (.outOfBounds first), { cpu with pc := first }, none⟩
  | .exception => .ofEntry (cpu.takeException (second.toNat % 256) first)
  | .fetchError => .ofEntry (cpu.takeAddressError ⟨first, .fetch, some second⟩)
  | .setSr => .done (cpu.setSr first.toUInt16)
  | .returnFromException => .ofEntry (cpu.returnFromException (cpu.caller? host))
  | .stop => .ofOutcome (cpu.stop first.toUInt16 second)
  | .reset => .done (if cpu.logsReset then cpu.log .reset else cpu)
  | .mulu => cpu.serveMultiply false first.toUInt16 second.toUInt16
  | .muls => cpu.serveMultiply true first.toUInt16 second.toUInt16
  | .divu => cpu.serveDivide false first.toUInt16 second (host.reg Role.scratch3)
  | .divs => cpu.serveDivide true first.toUInt16 second (host.reg Role.scratch3)
  | .abcd => cpu.serveDecimal false first.toUInt8 second.toUInt8
  | .sbcd => cpu.serveDecimal true first.toUInt8 second.toUInt8

end Dynarec68k.Cpu
