import Dynarec68k.Proofs.OpcodeFields
import Dynarec68k.Proofs.OperandKinds
import Dynarec68k.Proofs.WordReaders

/-!
The shape of every line of the decoder. An opcode word is refused at once, or it is followed by a
fixed number of words, or by a fixed number of words and an operand that has to be of some kind:
`Decode.Encoding`. MOVE alone has two operands behind it. The relation holds between the readers of
two models, so that it also says what a later model does with the same word.
-/

namespace Dynarec68k

open WordReader

variable {model : Model} {f : Operand → Form}

/-- The operand was read from the low six bits of an opcode word. -/
structure Operand.ReadFrom (model : Model) (w : UInt16) (o : Operand) : Prop where
  modeReg : o.modeReg = some (Word.field3 w 3, Word.field3 w 0)
  fits : o.Fits model

theorem Operand.ReadFrom.field {w : UInt16} {o : Operand} (h : o.ReadFrom model w) :
    o.field = w.toNat % 64 := by
  rw [(Operand.field_register h.modeReg).1, Word.val_field3, Word.val_field3]
  omega

theorem Operand.ReadFrom.value {w : UInt16} {o : Operand} (h : o.ReadFrom model w) :
    o.isValue = true :=
  isValue_of_modeReg h.modeReg

/-- The words of immediate data. -/
def Size.immediateWords : Size → Nat
  | .byte | .word => 1
  | .long => 2

theorem Size.immediateWords_le (size : Size) : size.immediateWords ≤ 2 := by
  cases size <;> decide

/-- A word of the operation itself follows the opcode word: a register mask, further registers, or
the place of a bit field. -/
def Op.hasOwnWord : Op → Bool
  | .movem | .moves | .mulLong | .divLong | .bitField _ | .cas | .chk2 => true
  | _ => false

namespace Form

/-- A form that a model can have read from an opcode word. -/
structure Faithful (model : Model) (w : UInt16) (form : Form) : Prop where
  shaped : form.shaped = true
  apt : form.apt = true
  fits : form.Fits model
  opcode : form.opcode = w.toNat

/-- The operand is the one whose extension words come last. -/
def EndsWith (form : Form) (operand : Operand) : Prop :=
  form.dst = operand ∨ (form.src = operand ∧ form.op ≠ .move)

/-- The operands that count from the program counter. -/
def relatives (form : Form) : List Operand :=
  [form.src, form.dst].filter Operand.isPcRelative

/-- The words between the opcode word and those of its operand: an immediate, or a register mask or
the like that the operation has for itself. -/
def leadWords (form : Form) : Nat :=
  if form.variant = .immediate then
    match form.op, form.extra with
    | .btst, _ | .bchg, _ | .bclr, _ | .bset, _ => 1
    | _, .size size => size.immediateWords
    | _, _ => 0
  else form.op.hasOwnWord.toNat

/-- The operand comes `n` words behind the opcode word, and no other one counts from the program
counter. -/
structure Leads (form : Form) (n : Nat) (operand : Operand) : Prop where
  words : form.leadWords = n
  rest : form.relatives = [operand].filter Operand.isPcRelative

variable {w : UInt16} {op : Op} {variant : Variant} {extra : Extra}
  {src dst : Operand}

theorem Faithful.early (hop : op.isEarly = true) (hvariant : variant ≠ .long)
    (hsrc : src.Fits model) (hdst : dst.Fits model)
    (hshaped : (Form.mk op variant extra src dst).shaped = true)
    (hapt : (Form.mk op variant extra src dst).apt = true)
    (hopcode : (Form.mk op variant extra src dst).opcode = w.toNat) :
    (Form.mk op variant extra src dst).Faithful model w :=
  ⟨hshaped, hapt, .early hop hvariant extra hsrc hdst, hopcode⟩

theorem Faithful.last (hmodel : model.is68020 = true) {form : Form} (hshaped : form.shaped = true)
    (hapt : form.apt = true) (hopcode : form.opcode = w.toNat) : form.Faithful model w :=
  ⟨hshaped, hapt, .of_68020 hmodel form, hopcode⟩

theorem Faithful.second (hmodel : model.is68010OrLater = true)
    (hwide : (Form.mk op variant extra src dst).isWide = false) (hsrc : src.Fits model)
    (hdst : dst.Fits model) (hshaped : (Form.mk op variant extra src dst).shaped = true)
    (hapt : (Form.mk op variant extra src dst).apt = true)
    (hopcode : (Form.mk op variant extra src dst).opcode = w.toNat) :
    (Form.mk op variant extra src dst).Faithful model w :=
  ⟨hshaped, hapt, .of_operands (fun _ => hmodel) hwide hsrc hdst, hopcode⟩

end Form

/-- The second model has all that the first has. -/
structure Model.Later (model model' : Model) : Prop where
  second : model.is68010OrLater = true → model'.is68010OrLater = true
  last : model.is68020 = true → model'.is68020 = true

theorem Model.Later.refl (model : Model) : model.Later model :=
  ⟨id, id⟩

namespace Decode

/-- The readers of one effective-address field on two models. -/
inductive Addressing (model model' : Model) (mode reg : Fin 8) :
    WordReader Operand → WordReader Operand → Prop
  | fixed {α : Type} {n : Nat} {l : WordReader α} {f : α → Operand} (hn : n ≤ 2)
      (hlead : Fixed (fun _ => True) n l) (h : ∀ v, (f v).modeReg = some (mode, reg))
      (hplain : ∀ v, (f v).isExtended = false) :
      Addressing model model' mode reg (l >>= fun v => .done (f v))
        (l >>= fun v => .done (f v))
  | index {f : Nat → FullIndex → Operand} {b : Nat → UInt16 → IndexReg → Operand}
      (hfull : ∀ position v, (f position v).modeReg = some (mode, reg))
      (h : ∀ position ext v, (b position ext v).modeReg = some (mode, reg))
      (hbrief : ∀ position ext v, (b position ext v).isBriefIndexed = true)
      (hscale : ∀ position ext v, (b position ext v).isExtended = (v.scale != 1)) :
      Addressing model model' mode reg
        (.word fun position ext =>
          if isFull model ext then fullExtension model ext >>= fun v => .done (f position v)
          else .done (b position ext (indexReg model ext)))
        (.word fun position ext =>
          if isFull model' ext then fullExtension model' ext >>= fun v => .done (f position v)
          else .done (b position ext (indexReg model' ext)))
  | refused : Addressing model model' mode reg (.fail (.invalidAddress 7 reg.val))
      (.fail (.invalidAddress 7 reg.val))

theorem immediate_fixed (size : Size) :
    Fixed (fun _ => True) size.immediateWords (immediate size) := by
  cases size with
  | byte => exact Fixed.next.bind fun _ _ => .done trivial
  | word => exact Fixed.next.bind fun _ _ => .done trivial
  | long => exact Fixed.nextLong

section

variable (model model' : Model) (mode reg : Fin 8) (size : Size)

theorem addressing_plain {o : Operand} (h : o.modeReg = some (mode, reg))
    (hplain : o.isExtended = false) : Addressing model model' mode reg (.done o) (.done o) :=
  .fixed (l := .done ()) (f := fun _ => o) (Nat.zero_le 2) (.done trivial) (fun _ => h)
    fun _ => hplain

theorem extendedMode_addressing :
    Addressing model model' 7 reg (extendedMode model reg size) (extendedMode model' reg size) := by
  unfold extendedMode
  split
  · exact .fixed (by decide) .next (fun _ => rfl) fun _ => rfl
  · exact .fixed (by decide) .nextLong (fun _ => rfl) fun _ => rfl
  · exact .fixed (l := nextAt)
      (f := fun v => .pcDisplaced ((Word.signed16 v.2).toInt32 + pcAdjust v.1)) (by decide)
      (.word fun _ _ => .done trivial) (fun _ => rfl) fun _ => rfl
  · exact .index (f := fun position v => .pcFull (v.rebase (pcAdjust position)))
      (b := fun position ext v => .pcIndexed v ((Word.signed8 ext).toInt32 + pcAdjust position))
      (fun _ _ => rfl) (fun _ _ _ => rfl) (fun _ _ _ => rfl) fun _ _ _ => rfl
  · exact .fixed size.immediateWords_le (immediate_fixed size) (fun _ => rfl) fun _ => rfl
  · exact .refused

theorem effectiveAddress_addressing :
    Addressing model model' mode reg (effectiveAddress model mode reg size)
      (effectiveAddress model' mode reg size) := by
  unfold effectiveAddress
  split
  · exact addressing_plain _ _ _ _ rfl rfl
  · exact addressing_plain _ _ _ _ rfl rfl
  · exact addressing_plain _ _ _ _ rfl rfl
  · exact addressing_plain _ _ _ _ rfl rfl
  · exact addressing_plain _ _ _ _ rfl rfl
  · exact .fixed (by decide) .next (fun _ => rfl) fun _ => rfl
  · exact .index (f := fun _ v => .full reg v)
      (b := fun _ ext v => .indexed reg v (Word.signed8 ext))
      (fun _ _ => rfl) (fun _ _ _ => rfl) (fun _ _ _ => rfl) fun _ _ _ => rfl
  · exact extendedMode_addressing model model' reg size

end

/-- The readers behind one opcode word on two models, the second of them a later one. -/
inductive Encoding (model model' : Model) (w : UInt16) :
    WordReader Form → WordReader Form → Prop
  | refused {e : DecodeError} (h : ∀ available, e ≠ .truncated available) (r' : WordReader Form) :
      Encoding model model' w (.fail e) r'
  | fixed {α : Type} {n : Nat} {l : WordReader α} {f : α → Form} (hn : n ≤ 2)
      (hlead : Fixed (fun _ => True) n l) (hplain : ∀ v, (f v).relatives = [])
      (h : ∀ v, (f v).Faithful model w) :
      Encoding model model' w (l >>= fun v => .done (f v)) (l >>= fun v => .done (f v))
  | operand {α : Type} {n : Nat} {l : WordReader α} {size : Size} {c c' : Operand → Bool}
      {f : α → Operand → Form} (hn : n ≤ 2) (hlead : Fixed (fun _ => True) n l)
      (hkind : ∀ o o', o.Alike o' → c o = c o') (hmore : ∀ o, c o = true → c' o = true)
      (hends : ∀ v o, (f v o).EndsWith o ∧ (f v o).Leads n o)
      (h : ∀ v o, o.ReadFrom model w → c o = true → (f v o).Faithful model w) :
      Encoding model model' w
        (l >>= fun v => operandOf model w size >>= fun o => require (c o) o >>= fun _ =>
          .done (f v o))
        (l >>= fun v => operandOf model' w size >>= fun o => require (c' o) o >>= fun _ =>
          .done (f v o))
  /-- The last model reads a displacement where an earlier one has none. -/
  | reread {form : Form} (h : form.Faithful model w) (hmodel : model'.is68020 = true)
      (hop : form.op = .bcc ∨ form.op = .bsr) (hbyte : w &&& 0xFF = 0xFF)
      (hplain : form.relatives = []) (r' : WordReader Form) :
      Encoding model model' w (.done form) r'
  | move (hline : 1 ≤ w.toNat / 4096 ∧ w.toNat / 4096 ≤ 3) :
      Encoding model model' w (lineMove model w) (lineMove model' w)

/-- The readers of one kind of instruction on two models. -/
abbrev Encodes (model model' : Model) (w : UInt16) (read : Model → WordReader Form) : Prop :=
  Encoding model model' w (read model) (read model')

section Lines

variable {model' : Model} (hlater : model.Later model') {w : UInt16} {size : Size}
  {c : Operand → Bool}

namespace Encoding

variable (model model') in
theorem unrecognized (w w' : UInt16) (r' : WordReader Form) :
    Encoding model model' w (.fail (.unrecognized w')) r' :=
  .refused (fun _ h => by cases h) r'

theorem done {form : Form} (hplain : form.relatives = []) (h : form.Faithful model w) :
    Encoding model model' w (.done form) (.done form) :=
  .fixed (l := .done ()) (f := fun _ => form) (Nat.zero_le 2) (.done trivial) (fun _ => hplain)
    fun _ => h

theorem checked {c' : Operand → Bool} (hkind : ∀ o o', o.Alike o' → c o = c o')
    (hmore : ∀ o, c o = true → c' o = true) (hends : ∀ o, (f o).EndsWith o ∧ (f o).Leads 0 o)
    (h : ∀ o, o.ReadFrom model w → c o = true → (f o).Faithful model w) :
    Encoding model model' w
      (operandOf model w size >>= fun o => require (c o) o >>= fun _ => .done (f o))
      (operandOf model' w size >>= fun o => require (c' o) o >>= fun _ => .done (f o)) :=
  .operand (l := .done ()) (f := fun _ => f) (Nat.zero_le 2) (.done trivial) hkind hmore
    (fun _ => hends) fun _ => h

theorem checked_dst (hkind : ∀ o o', o.Alike o' → c o = c o')
    (hdst : ∀ o, (f o).dst = o ∧ (f o).Leads 0 o)
    (h : ∀ o, o.ReadFrom model w → c o = true → (f o).Faithful model w) :
    Encoding model model' w
      (operandOf model w size >>= fun o => require (c o) o >>= fun _ => .done (f o))
      (operandOf model' w size >>= fun o => require (c o) o >>= fun _ => .done (f o)) :=
  checked hkind (fun _ => id) (fun o => ⟨.inl (hdst o).1, (hdst o).2⟩) h

theorem checked_src (hkind : ∀ o o', o.Alike o' → c o = c o')
    (hsrc : ∀ o, (f o).src = o ∧ decide ((f o).op = .move) = false ∧ (f o).Leads 0 o)
    (h : ∀ o, o.ReadFrom model w → c o = true → (f o).Faithful model w) :
    Encoding model model' w
      (operandOf model w size >>= fun o => require (c o) o >>= fun _ => .done (f o))
      (operandOf model' w size >>= fun o => require (c o) o >>= fun _ => .done (f o)) :=
  checked hkind (fun _ => id) (fun o => ⟨.inr ⟨(hsrc o).1, of_decide_eq_false (hsrc o).2.1⟩, (hsrc o).2.2⟩) h

theorem gated {ok ok' : Bool} (hok : ok = true → ok' = true) {f f' : Unit → WordReader Form}
    (h : ok = true → Encoding model model' w (f ()) (f' ())) :
    Encoding model model' w (requireModel ok w >>= f) (requireModel ok' w >>= f') := by
  cases ok with
  | false => exact .refused (fun _ h => by cases h) _
  | true =>
    rw [hok rfl]
    exact h rfl

include hlater in
theorem gated_last {ok : Model → Bool} (hok : ∀ model, ok model = model.is68020)
    {f f' : Unit → WordReader Form}
    (h : model.is68020 = true → Encoding model model' w (f ()) (f' ())) :
    Encoding model model' w (requireModel (ok model) w >>= f)
      (requireModel (ok model') w >>= f') := by
  refine gated (fun hmodel => ?_) fun hmodel => h ((hok model).symm.trans hmodel)
  rw [hok] at hmodel ⊢
  exact hlater.last hmodel

theorem sized {size : Option Size} {f f' : Size → WordReader Form}
    (h : ∀ s, size = some s → Encoding model model' w (f s) (f' s)) :
    Encoding model model' w (sizeOr size w >>= f) (sizeOr size w >>= f') := by
  cases size with
  | none => exact .unrecognized ..
  | some s => exact h s rfl

end Encoding

end Lines

end Decode
end Dynarec68k
