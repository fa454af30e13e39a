import Dynarec68k.Codegen.ConditionCodes
import Dynarec68k.Codegen.EffectiveAddress

namespace Dynarec68k.Codegen

open Host Role

variable (config : Config) (inst : Instruction)

def jumpClocks (target : Operand) : Nat :=
  match target with
  | .indirect _ => 8
  | .absLong _ => 12
  | .indexed _ _ _ => 14
  | .pcIndexed _ _ => 14
  | .full _ _ => 6 + addressClocks target .long
  | .pcFull _ => 6 + addressClocks target .long
  | _ => 10

def staticTarget? (operand : Operand) (pcBase : UInt32) : Option UInt32 :=
  match operand with
  | .absShort address => some address
  | .absLong address => some address
  | .pcDisplaced disp => some (pcBase + disp.toUInt32)
  | _ => none

def branchTarget : UInt32 :=
  inst.branchTarget?.getD inst.nextAddress

def onCondition (condition : Condition) (body : Fragment) : Fragment :=
  evaluate condition ++ skipIf (conditionTest condition).inverse body

def branch : Fragment :=
  let taken := charge config 10 ++ jumpTo inst.address (branchTarget inst)
  match inst.condition?.getD .always with
  | .always => taken
  | condition =>
    onCondition condition taken ++ charge config (if inst.variant = .byte then 8 else 12)

def pushReturn : Fragment :=
  load inst.nextAddress scratch1 ++ pushLong config

def branchSubroutine : Fragment :=
  charge config 10 ++ pushReturn config inst ++ jumpTo inst.address (branchTarget inst)

/-- Count the low word of a register down and branch unless it wrapped. -/
def countDown (reg : Fin 8) : Fragment :=
  alu .sub (.imm 1) (config.dataPlace reg) .word
    ++ skipIf .below (charge config 10 ++ jumpTo inst.address (branchTarget inst))
    ++ charge config 14

/-- Nothing happens when the condition holds. -/
def decrementBranch : Fragment :=
  match inst.dst with
  | .data reg =>
    let count := countDown config inst reg
    match inst.condition?.getD .never with
    | .always => charge config 12
    | .never => count
    | condition =>
      evaluate condition ++ jumpOverIf (conditionTest condition) (count.length + 1) ++ count
        ++ skip (charge config 12)
  | _ => []

def setCondition : Fragment :=
  match inst.condition? with
  | some condition =>
    let memory := inst.dst.isMemory
    charge config (if memory then 8 + addressClocks inst.dst .byte else 4)
      ++ locateDest config inst.pcBase inst.dst .byte ++ evaluate condition
      ++ (if memory then [] else skipIf (conditionTest condition).inverse (charge config 2))
      ++ setTest (conditionTest condition) (.reg temp) ++ unary .neg (.reg temp) .byte
      ++ writeDest (destOf config inst.dst .byte) (.reg temp) .byte
  | none => []

def jump : Fragment :=
  charge config (jumpClocks inst.src)
    ++ (match staticTarget? inst.src inst.pcBase with
      | some target => jumpTo inst.address target
      | none => addressInto config inst.pcBase inst.src .long scratch1 ++ jumpComputed)

/-- The target is worked out before the return address is pushed. -/
def jumpSubroutine : Fragment :=
  charge config (jumpClocks inst.src)
    ++ (match staticTarget? inst.src inst.pcBase with
      | some target => pushReturn config inst ++ jumpTo inst.address target
      | none =>
        addressInto config inst.pcBase inst.src .long scratch3 ++ pushReturn config inst
          ++ mov (.reg scratch3) (.reg scratch1) .long ++ jumpComputed)

def returnSubroutine : Fragment :=
  charge config 8 ++ popLong config ++ jumpComputed

def returnRestore : Fragment :=
  let sp := config.addrPlace 7
  charge config 8 ++ mov sp (.reg scratch1) .long ++ alu .add (.imm 2) sp .long
    ++ callRead .word ++ ccrFrom scratch1 ++ popLong config ++ jumpComputed

def returnDeallocate : Fragment :=
  charge config 8 ++ popLong config
    ++ alu .add (.imm (inst.src.immediateValue.getD 0)) (config.addrPlace 7) .long ++ jumpComputed

end Dynarec68k.Codegen
