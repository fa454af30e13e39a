import Dynarec68k.Cpu.Timing

/-!
Snapshots of the registers and of what the processor waits for: D0 to D7, A0 to A7, the stack
pointer not in use, the program counter, the status register, the cycle counter, the cycle and
level of the interrupt request, the latched interrupt (255 for none) and the pending trace, most
significant bytes first. Compiled code is not saved; it is made again on demand.
-/

namespace Dynarec68k

namespace Bytes

def ofLong (value : UInt32) : List UInt8 :=
  [(value >>> 24).toUInt8, (value >>> 16).toUInt8, (value >>> 8).toUInt8, value.toUInt8]

def ofWord (value : UInt16) : List UInt8 :=
  [(value >>> 8).toUInt8, value.toUInt8]

def long (bytes : List UInt8) : UInt32 :=
  (bytes.getD 0 0).toUInt32 <<< 24 ||| (bytes.getD 1 0).toUInt32 <<< 16
    ||| (bytes.getD 2 0).toUInt32 <<< 8 ||| (bytes.getD 3 0).toUInt32

def word (bytes : List UInt8) : UInt16 :=
  (bytes.getD 0 0).toUInt16 <<< 8 ||| (bytes.getD 1 0).toUInt16

end Bytes

namespace Cpu

def snapshotSize : Nat :=
  85

def noLatch : UInt8 :=
  0xFF

def snapshot (cpu : Cpu) : List UInt8 :=
  (List.range 8).flatMap (fun n => Bytes.ofLong (cpu.registers.d n))
    ++ (List.range 9).flatMap (fun n => Bytes.ofLong (cpu.registers.a n))
    ++ Bytes.ofLong cpu.pc ++ Bytes.ofWord cpu.registers.sr ++ Bytes.ofLong cpu.cycle
    ++ Bytes.ofLong cpu.request.cycle
    ++ [cpu.request.level, cpu.latched.getD noLatch, cpu.tracePending.toUInt8]

def restoreGeneral (registers : RegisterFile) (bytes : List UInt8) : RegisterFile :=
  let data := (List.range 8).foldl
    (fun registers n => registers.setD n (Bytes.long (bytes.drop (4 * n)))) registers
  (List.range 9).foldl
    (fun registers n => registers.setA n (Bytes.long (bytes.drop (32 + 4 * n)))) data

/-- Load a snapshot. The stack pointers are loaded as they were saved, whatever the status
register says. -/
def restore (cpu : Cpu) (bytes : List UInt8) : Except CpuError Cpu :=
  if bytes.length < snapshotSize then .error (.stateTooShort bytes.length snapshotSize)
  else
    let sr := Bytes.word (bytes.drop 72)
    let latched := bytes.getD 83 0
    let registers := restoreGeneral cpu.registers bytes
    let restored := { cpu with
      registers := (registers.setStatus (sr >>> 8).toUInt8).setCcr sr.toUInt8
      cycle := Bytes.long (bytes.drop 74)
      request := ⟨bytes.getD 82 0 &&& 7, Bytes.long (bytes.drop 78)⟩
      latched := if latched = noLatch then none else some (latched &&& 7)
      tracePending := bytes.getD 84 0 != 0 }
    .ok (restored.setPc (Bytes.long (bytes.drop 68))).updateLimit

end Cpu

end Dynarec68k
