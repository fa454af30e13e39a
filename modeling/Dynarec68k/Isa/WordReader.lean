import Dynarec68k.Word

namespace Dynarec68k

inductive DecodeError where
  | truncated (available : Nat)
  | unrecognized (opcode : UInt16)
  | invalidAddress (mode reg : Nat)
  | reservedExtension (ext : UInt16)
  /-- Only a later model has this encoding. -/
  | unsupported (opcode : UInt16)
  deriving DecidableEq, Repr

def DecodeError.message : DecodeError → String
  | .truncated available => s!"instruction stream ends after {available} words"
  | .unrecognized opcode => "no instruction encoded by 0x" ++ Hex.lowerPadded 4 opcode.toNat
  | .invalidAddress mode reg => s!"addressing mode {mode}/{reg} not allowed here"
  | .reservedExtension ext =>
      "reserved bits set in extension word 0x" ++ Hex.lowerPadded 4 ext.toNat
  | .unsupported opcode => "0x" ++ Hex.lowerPadded 4 opcode.toNat ++ " needs a later CPU model"

inductive WordReader (α : Type) where
  | done (value : α)
  | fail (error : DecodeError)
  | word (next : Nat → UInt16 → WordReader α)

namespace WordReader

variable {α β : Type}

def bind : WordReader α → (α → WordReader β) → WordReader β
  | .done value, f => f value
  | .fail error, _ => .fail error
  | .word next, f => .word fun position w => (next position w).bind f

instance : Monad WordReader where
  pure := .done
  bind := bind

def next : WordReader UInt16 :=
  .word fun _ w => .done w

def nextAt : WordReader (Nat × UInt16) :=
  .word fun position w => .done (position, w)

def nextLong : WordReader UInt32 := do
  let high ← next
  let low ← next
  return Word.join high low

/-- Feed the words from `position` on to a reader. The result comes with the position after the
last word read. -/
def run : WordReader α → Nat → List UInt16 → Except DecodeError (α × Nat)
  | .done value, position, _ => .ok (value, position)
  | .fail error, _, _ => .error error
  | .word _, position, [] => .error (.truncated position)
  | .word next, position, w :: rest => (next position w).run (position + 1) rest

end WordReader

end Dynarec68k
