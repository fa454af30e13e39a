namespace Dynarec68k

inductive Model where
  | m68000
  | m68010
  | m68020
  deriving DecidableEq, Repr

namespace Model

structure Capabilities where
  /-- MOVE from CCR, RTD, BKPT, MOVEC and MOVES. -/
  loopModeOps : Bool
  /-- Scaled indices and full extension words. -/
  extendedAddressing : Bool
  /-- Long branch displacements, EXTB, long LINK and CHK, TRAPcc. -/
  longBranches : Bool
  /-- Long multiply and divide, bit fields, CAS, CHK2, PACK and UNPK. -/
  wideOps : Bool
  deriving DecidableEq, Repr

def capabilities : Model → Capabilities
  | .m68000 => ⟨false, false, false, false⟩
  | .m68010 => ⟨true, false, false, false⟩
  | .m68020 => ⟨true, true, true, true⟩

def is68010OrLater (model : Model) : Bool :=
  model.capabilities.loopModeOps

def is68020 (model : Model) : Bool :=
  model.capabilities.extendedAddressing

/-- Longest instruction of the model in bytes: the opcode word and two operands with all of
their extension words. -/
def maxInstructionBytes : Model → Nat
  | .m68000 => 10
  | .m68010 => 10
  | .m68020 => 22

def maxInstructionWords : Nat :=
  11

def addressMask : Model → UInt32
  | .m68000 => 0x00FFFFFF
  | .m68010 => 0x00FFFFFF
  | .m68020 => 0xFFFFFFFF

def name : Model → String
  | .m68000 => "M68000"
  | .m68010 => "M68010"
  | .m68020 => "M68020"

end Model

end Dynarec68k
