import Dynarec68k.Cpu.Run
import Dynarec68k.Isa.Decode
import Dynarec68k.Isa.Listing

namespace Dynarec68k.CommandLine

def padEnd (width : Nat) (text : String) : String :=
  text ++ String.ofList (List.replicate (width - text.length) ' ')

def addressText (address : UInt32) : String :=
  "$" ++ Hex.upperPadded 6 address.toNat

def instructionLine (address : UInt32) (words : List UInt16) (inst : Instruction) : String :=
  let shown := (words.take (inst.length / 2)).map fun word => Hex.upperPadded 4 word.toNat
  addressText address ++ "  " ++ padEnd 24 (" ".intercalate shown) ++ "  " ++ inst.listing

def listingLines (model : Model) (memory : MemoryMap) (address : UInt32) : Nat → List String
  | 0 => []
  | count + 1 =>
    match memory.fetchWords address Model.maxInstructionWords with
    | [] => [addressText address ++ "  <no code memory>"]
    | words =>
      let inst := Instruction.decode model address words
      instructionLine address words inst
        :: listingLines model memory (address + inst.length.toUInt32) count

def long (value : UInt32) : String :=
  "$" ++ Hex.upperPadded 8 value.toNat

def registerLine (registers : RegisterFile) (n : Nat) : String :=
  s!"D{n} {long (registers.d n)}   A{n} {long (registers.a n)}"

def statusLine (cpu : Cpu) : String :=
  "PC " ++ long cpu.pc ++ "   SR $" ++ Hex.upperPadded 4 cpu.registers.sr.toNat ++ "   SP' "
    ++ long (cpu.registers.a 8)

def counterLine (cpu : Cpu) : String :=
  "  ".intercalate
    ["cycle " ++ toString cpu.cycle.toNat,
      "blocks " ++ toString cpu.store.counters.blocks,
      "instructions " ++ toString cpu.store.counters.instructions,
      "retranslations " ++ toString cpu.store.counters.recompiled,
      "exceptions " ++ toString cpu.counters.exceptions,
      "interrupts " ++ toString cpu.counters.interrupts]

def registerLines (cpu : Cpu) : List String :=
  (List.range 8).map (registerLine cpu.registers) ++ [statusLine cpu, counterLine cpu]

def breakpointLines (events : Array Event) : List String :=
  events.toList.filterMap fun event =>
    match event with
    | .breakpoint address => some ("breakpoint " ++ addressText address)
    | _ => none

end Dynarec68k.CommandLine
