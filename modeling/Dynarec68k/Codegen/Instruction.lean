import Dynarec68k.Codegen.Arithmetic
import Dynarec68k.Codegen.Bitwise
import Dynarec68k.Codegen.Flow
import Dynarec68k.Codegen.Status
import Dynarec68k.Codegen.Transfer

namespace Dynarec68k

open Host Codegen ExceptionVector

/-- What an instruction does, without the check of the cycle limit in front of it. Operations that
are only ever listed are illegal instructions when run. -/
def Instruction.body (inst : Instruction) (config : Config) : Fragment :=
  match inst.op with
  | .move => moveData config inst
  | .add => binary config inst
  | .sub => binary config inst
  | .and => binary config inst
  | .or => binary config inst
  | .eor => binary config inst
  | .cmp => compare config inst
  | .addx => extendedBinary config inst
  | .subx => extendedBinary config inst
  | .neg => negate config inst
  | .negx => negate config inst
  | .not => negate config inst
  | .clr => clear config inst
  | .tst => test config inst
  | .ext => extendSign config inst
  | .extb => extendSign config inst
  | .swap => swapHalves config inst
  | .exg => exchange config inst
  | .mulu => multiply config inst
  | .muls => multiply config inst
  | .divu => divide config inst
  | .divs => divide config inst
  | .abcd => decimalBinary config inst
  | .sbcd => decimalBinary config inst
  | .nbcd => decimalNegate config inst
  | .chk => checkBounds config inst
  | .tas => testAndSet config inst
  | .asl => shiftInstruction config inst
  | .asr => shiftInstruction config inst
  | .lsl => shiftInstruction config inst
  | .lsr => shiftInstruction config inst
  | .rol => shiftInstruction config inst
  | .ror => shiftInstruction config inst
  | .roxl => shiftInstruction config inst
  | .roxr => shiftInstruction config inst
  | .btst => bitInstruction config inst
  | .bchg => bitInstruction config inst
  | .bclr => bitInstruction config inst
  | .bset => bitInstruction config inst
  | .bcc => branch config inst
  | .bsr => branchSubroutine config inst
  | .dbcc => decrementBranch config inst
  | .scc => setCondition config inst
  | .jmp => jump config inst
  | .jsr => jumpSubroutine config inst
  | .rts => returnSubroutine config
  | .rtr => returnRestore config
  | .rtd => returnDeallocate config inst
  | .lea => loadAddress config inst
  | .pea => pushAddress config inst
  | .link => enterFrame config inst
  | .unlk => leaveFrame config inst
  | .movem => moveMultiple config inst
  | .movep => movePeripheral config inst
  | .moveSr => moveToSr config inst
  | .moveCcr => moveToCcr config inst
  | .moveFromSr => moveFromStatus config inst
  | .moveFromCcr => moveFromStatus config inst
  | .moveUsp => moveUsp config inst
  | .andiCcr => logicCcr config inst
  | .oriCcr => logicCcr config inst
  | .eoriCcr => logicCcr config inst
  | .andiSr => logicSr config inst
  | .oriSr => logicSr config inst
  | .eoriSr => logicSr config inst
  | .rte => returnException config inst
  | .trap => trap inst
  | .trapv => trapOverflow config inst
  | .trapcc => trapCondition config inst
  | .stop => stop config inst
  | .reset => reset config inst
  | .nop => charge config 4
  | .lineA => raise lineA inst.address
  | .lineF => raise lineF inst.address
  | _ => raise illegal inst.address

def Instruction.code (inst : Instruction) (config : Config) : Fragment :=
  boundary inst.address ++ inst.body config

def Codegen.missing (address : UInt32) : Fragment :=
  boundary address ++ load address Role.scratch1 ++ service .outOfBounds

end Dynarec68k
