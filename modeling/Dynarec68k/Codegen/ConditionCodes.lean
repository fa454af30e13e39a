import Dynarec68k.Codegen.Fragment
import Dynarec68k.Isa.Condition

namespace Dynarec68k.Codegen

open Host Role

def flagPlace (flag : Flag) : Place :=
  .slot context (Int32.ofNat (RegisterFile.flagOffset flag))

def statusPlace : Place :=
  .slot context (Int32.ofNat RegisterFile.statusOffset)

inductive FlagUpdate where
  | keep
  | constant (value : Bool)
  | host (test : Test)
  deriving DecidableEq, Repr

abbrev FlagUpdates :=
  Flag → FlagUpdate

namespace FlagUpdates

def arithmetic : FlagUpdates
  | .x => .host .below
  | .n => .host .sign
  | .z => .host .equal
  | .v => .host .overflow
  | .c => .host .below

/-- Comparison leaves X alone. -/
def comparison : FlagUpdates
  | .x => .keep
  | flag => arithmetic flag

/-- Multi-precision operations only ever clear Z, which is done apart. -/
def extended : FlagUpdates
  | .z => .keep
  | flag => arithmetic flag

def logic : FlagUpdates
  | .x => .keep
  | .n => .host .sign
  | .z => .host .equal
  | .v => .constant false
  | .c => .constant false

def logicOf (value : UInt32) (size : Size) : FlagUpdates
  | .n => .constant (value &&& size.signBit != 0)
  | .z => .constant (value &&& size.mask == 0)
  | flag => logic flag

/-- N and Z from a comparison with zero, V cleared, X and C set elsewhere. -/
def shifted : FlagUpdates
  | .x => .keep
  | .c => .keep
  | flag => logic flag

/-- As `shifted`, with V set elsewhere too. -/
def shiftedSigned : FlagUpdates
  | .v => .keep
  | flag => shifted flag

end FlagUpdates

def setFlag (flag : Flag) (value : Bool) : Fragment :=
  mov (.imm value.toUInt32) (flagPlace flag) .byte

def captureFlag (updates : FlagUpdates) (flag : Flag) : Fragment :=
  match updates flag with
  | .host test => setTest test (flagPlace flag)
  | _ => []

def assignFlag (updates : FlagUpdates) (flag : Flag) : Fragment :=
  match updates flag with
  | .constant value => setFlag flag value
  | _ => []

def setFlags (updates : FlagUpdates) : Fragment :=
  Flag.all.flatMap (captureFlag updates) ++ Flag.all.flatMap (assignFlag updates)

def testFlags (value : Place) (size : Size) : Fragment :=
  match value with
  | .imm constant => setFlags (FlagUpdates.logicOf constant size)
  | _ => alu .cmp (.imm 0) value size ++ setFlags FlagUpdates.logic

def clearZ : Fragment :=
  skipIf .equal (setFlag .z false)

def loadExtend : Fragment :=
  bit .test (.imm 0) (flagPlace .x) .byte

def signXorOverflow : Fragment :=
  movzx (flagPlace .n) temp .byte .long ++ alu .xor (flagPlace .v) (.reg temp) .byte

def compareFlag (flag : Flag) : Fragment :=
  alu .cmp (.imm 0) (flagPlace flag) .byte

/-- Code after which `conditionTest` tells whether a condition holds. -/
def evaluate : Condition → Fragment
  | .always => alu .cmp (.reg temp) (.reg temp) .long
  | .never => alu .cmp (.reg temp) (.reg temp) .long
  | .high =>
    movzx (flagPlace .c) temp .byte .long ++ alu .or (flagPlace .z) (.reg temp) .byte
  | .lowSame =>
    movzx (flagPlace .c) temp .byte .long ++ alu .or (flagPlace .z) (.reg temp) .byte
  | .carryClear => compareFlag .c
  | .carrySet => compareFlag .c
  | .notEqual => compareFlag .z
  | .equal => compareFlag .z
  | .overflowClear => compareFlag .v
  | .overflowSet => compareFlag .v
  | .plus => compareFlag .n
  | .minus => compareFlag .n
  | .greaterEqual => signXorOverflow
  | .less => signXorOverflow
  | .greater => signXorOverflow ++ alu .or (flagPlace .z) (.reg temp) .byte
  | .lessEqual => signXorOverflow ++ alu .or (flagPlace .z) (.reg temp) .byte

/-- The host test that holds exactly when the condition does, after `evaluate`. -/
def conditionTest : Condition → Test
  | .always => .equal
  | .never => .notEqual
  | .high => .equal
  | .lowSame => .notEqual
  | .carryClear => .equal
  | .carrySet => .notEqual
  | .notEqual => .equal
  | .equal => .notEqual
  | .overflowClear => .equal
  | .overflowSet => .notEqual
  | .plus => .equal
  | .minus => .notEqual
  | .greaterEqual => .equal
  | .less => .notEqual
  | .greater => .equal
  | .lessEqual => .notEqual

def packFlags (reg : Reg) : Fragment :=
  Flag.all.flatMap fun flag =>
    shiftBy .shl 1 (.reg reg) .long ++ alu .or (flagPlace flag) (.reg reg) .byte

def ccrInto (reg : Reg) : Fragment :=
  load 0 reg ++ packFlags reg

def srInto (reg : Reg) : Fragment :=
  movzx statusPlace reg .byte .long ++ shiftBy .shl 3 (.reg reg) .long ++ packFlags reg

def ccrFrom (reg : Reg) : Fragment :=
  ([(0, Flag.c), (1, .v), (2, .z), (3, .n), (4, .x)] : List (Nat × Flag)).flatMap
    fun (number, flag) =>
      bit .test (.imm number.toUInt32) (.reg reg) .long ++ setTest .below (flagPlace flag)

end Dynarec68k.Codegen
