import Dynarec68k.Codegen.ConditionCodes
import Dynarec68k.Codegen.EffectiveAddress
import Dynarec68k.Codegen.Flow
import Dynarec68k.Guest.ExceptionVector

namespace Dynarec68k.Codegen

open Host Role ExceptionVector

variable (config : Config) (inst : Instruction)

/-- The stack pointer not in use, which is the user's whenever it may be named. -/
def userStackPlace : Place :=
  .slot context (Int32.ofNat (RegisterFile.generalOffset 16))

def requireSupervisor : Fragment :=
  bit .test (.imm 5) statusPlace .byte
    ++ skipIf .below (raise privilege inst.address)

def logicOp : Op → Alu
  | .andiCcr => .and
  | .andiSr => .and
  | .oriCcr => .or
  | .oriSr => .or
  | _ => .xor

def statusSource : Fragment :=
  charge config (12 + addressClocks inst.src .word)
    ++ fetchSource config inst.pcBase inst.src .word
    ++ movzx (sourcePlace config inst.src .word) scratch1 .word .long

def moveToSr : Fragment :=
  requireSupervisor inst ++ statusSource config inst ++ service .setSr

def moveToCcr : Fragment :=
  statusSource config inst ++ ccrFrom scratch1

/-- Reading the whole register is privileged after the 68000. -/
def moveFromStatus : Fragment :=
  let whole := inst.op = .moveFromSr
  (if whole ∧ config.model ≠ .m68000 then requireSupervisor inst else [])
    ++ charge config (if inst.dst.isMemory then 8 + addressClocks inst.dst .word else 6)
    ++ locateDest config inst.pcBase inst.dst .word
    ++ (if whole then srInto scratch1 else ccrInto scratch1)
    ++ writeDest (destOf config inst.dst .word) (.reg scratch1) .word

def moveUsp : Fragment :=
  requireSupervisor inst ++ charge config 4
    ++ (match inst.src, inst.dst with
      | .addr reg, .usp => mov (config.addrPlace reg) userStackPlace .long
      | .usp, .addr reg => mov userStackPlace (config.addrPlace reg) .long
      | _, _ => [])

def logicCcr : Fragment :=
  let value := inst.src.immediateValue.getD 0
  charge config 20 ++ ccrInto scratch1
    ++ alu (logicOp inst.op) (.imm (value &&& 0xFF)) (.reg scratch1) .byte
    ++ ccrFrom scratch1

def logicSr : Fragment :=
  let value := inst.src.immediateValue.getD 0
  requireSupervisor inst ++ charge config 20 ++ srInto scratch1
    ++ alu (logicOp inst.op) (.imm (value &&& 0xFFFF)) (.reg scratch1) .word
    ++ service .setSr

def returnException : Fragment :=
  requireSupervisor inst ++ charge config 20 ++ service .returnFromException

def trap : Fragment :=
  let number := (inst.src.immediateValue.getD 0).toNat % 16
  raise (ExceptionVector.trap + number) inst.nextAddress

def trapOverflow : Fragment :=
  charge config 4 ++ compareFlag .v
    ++ skipIf .equal (raise trapOnOverflow inst.nextAddress)

def trapCondition : Fragment :=
  match inst.condition? with
  | some condition =>
    charge config 4
      ++ onCondition condition (raise trapOnOverflow inst.nextAddress)
  | none => []

def stop : Fragment :=
  requireSupervisor inst ++ charge config 4
    ++ load (inst.src.immediateValue.getD 0) scratch1
    ++ load inst.nextAddress scratch2 ++ service .stop

def reset : Fragment :=
  requireSupervisor inst ++ charge config 132 ++ service .reset

end Dynarec68k.Codegen
