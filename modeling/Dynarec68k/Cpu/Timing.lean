import Dynarec68k.Cpu.State

/-!
The cycle limit: the next cycle at which running code must look around. It is the end of the run
or the cycle of an interrupt that the mask lets through, and zero as long as something has to be
dealt with before the next instruction.
-/

namespace Dynarec68k.Cpu

variable (cpu : Cpu)

/-- The level requested, if the mask lets it through. Level 7 cannot be masked. -/
def deliverable? : Option UInt8 :=
  let level := cpu.request.level &&& 7
  if level ≠ 0 ∧ (cpu.registers.interruptMask < level ∨ level = 7) then some level else none

def mustLook : Bool :=
  cpu.returnRequested || cpu.latched.isSome || cpu.tracePending || cpu.registers.tracing

def dueLimit : UInt32 :=
  if cpu.mustLook then 0
  else if cpu.deliverable?.isSome then min cpu.target cpu.request.cycle
  else cpu.target

def updateLimit : Cpu :=
  { cpu with limit := cpu.dueLimit }

def requestReturn : Cpu :=
  { cpu with returnRequested := true, limit := 0 }

/-- Request an interrupt once the cycle counter reaches `cycle`. Level 0 withdraws the request. -/
def setInterrupt (level : UInt8) (cycle : UInt32) : Cpu :=
  let level := level &&& 7
  { cpu with request := ⟨level, if level = 0 then 0xFFFFFFFF else cycle⟩ }.updateLimit

def deduct (cycle deduction : UInt32) : UInt32 :=
  if cycle < deduction then 0 else cycle - deduction

def adjustCycles (deduction : UInt32) : Cpu :=
  { cpu with
    cycle := deduct cpu.cycle deduction
    target := deduct cpu.target deduction
    request := { cpu.request with
      cycle :=
        if cpu.request.cycle = 0xFFFFFFFF then cpu.request.cycle
        else deduct cpu.request.cycle deduction } }.updateLimit

def statusMask : UInt16 :=
  0xA71F

def swapStacks (registers : RegisterFile) : RegisterFile :=
  (registers.setA 7 (registers.a 8)).setA 8 (registers.a 7)

/-- Load the status register. The stack pointers change places with the supervisor bit. -/
def setSr (sr : UInt16) : Cpu :=
  let sr := sr &&& statusMask
  let loaded := (cpu.registers.setStatus (sr >>> 8).toUInt8).setCcr sr.toUInt8
  { cpu with
    registers :=
      if cpu.registers.supervisor = loaded.supervisor then loaded
      else swapStacks loaded }.updateLimit

def reset : Cpu :=
  let cpu := { cpu.setSr 0x2700 with stopped := false, returnRequested := false }
  let (stack, cpu) := cpu.read32 0
  let (pc, cpu) := cpu.read32 4
  { (cpu.setA 7 stack).setPc pc with latched := none, tracePending := false }

end Dynarec68k.Cpu
