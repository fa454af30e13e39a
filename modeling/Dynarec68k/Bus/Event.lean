namespace Dynarec68k

inductive Event where
  | read16 (address : UInt32) (value : UInt16)
  | write16 (address : UInt32) (value : UInt16)
  | write8 (address : UInt32) (value : UInt8)
  | breakpoint (address : UInt32)
  | reset
  | acknowledge (level : UInt8)
  deriving DecidableEq, Repr

end Dynarec68k
