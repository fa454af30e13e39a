import Dynarec68k.Proofs.DecodedForm

namespace Dynarec68k

variable {model : Model} {words : List UInt16}

theorem Model.maxInstructionBytes_eq (model : Model) :
    model.maxInstructionBytes = 2 * (1 + 2 * model.operandWords) := by
  cases model <;> rfl

namespace Decode

open WordReader

theorem form_within (model : Model) (w : UInt16) : AtMost (2 * model.operandWords) (form model w) :=
  (form_encoding (.refl model) w).within

theorem reader_within (model : Model) : AtMost (1 + 2 * model.operandWords) (reader model) :=
  Fixed.next.within.bind (form_within model)

end Decode

namespace Instruction

theorem decode?_eq_error {address : UInt32} {e : DecodeError}
    (h : decode? model address words = .error e) :
    (Decode.reader model).run 0 words = .error e := by
  unfold decode? at h
  split at h
  · exact nomatch h
  · rename_i e' hrun
    rw [hrun, Except.error.inj h]

theorem reader_positive {form : Form} {count : Nat}
    (hrun : (Decode.reader model).run 0 words = .ok (form, count)) : 1 ≤ count := by
  cases words with
  | nil => exact nomatch hrun
  | cons w rest =>
    have hrest : (Decode.form model w).run 1 rest = .ok (form, count) := hrun
    exact (WordReader.run_congr hrest rfl).1

end Instruction

open Instruction

/-- An instruction has whole words, one at least and no more than its model allows, all of them
among the words given, and they alone decide what it is. Eleven words never are too few. -/
theorem decoding_exact (model : Model) (address : UInt32) (words : List UInt16) :
    (∀ inst, decode? model address words = .ok inst →
      inst.length % 2 = 0 ∧ 2 ≤ inst.length ∧ inst.length ≤ model.maxInstructionBytes ∧
        inst.length ≤ 2 * words.length ∧
        ∀ words', words.take (inst.length / 2) <+: words' →
          decode? model address words' = .ok inst) ∧
      ∀ e, 11 ≤ words.length → decode? model address words = .error e →
        ∀ available, e ≠ .truncated available := by
  refine ⟨fun inst h => ?_, fun e hlength h available => ?_⟩
  · obtain ⟨form, count, hrun, rfl⟩ := decode?_eq_ok h
    have hpositive := reader_positive hrun
    have hmost := (Decode.reader_within model).run_le hrun
    have hgiven := WordReader.run_le hrun
    rw [model.maxInstructionBytes_eq]
    dsimp only
    refine ⟨by omega, by omega, by omega, by omega, fun words' hstart => ?_⟩
    rw [Nat.mul_div_cancel_left _ Nat.zero_lt_two] at hstart
    have htaken : (words.take count).length = count := by
      rw [List.length_take]
      omega
    have hsame : words'.take (count - 0) = words.take (count - 0) := by
      rw [Nat.sub_zero]
      rw [List.prefix_iff_eq_take, htaken] at hstart
      exact hstart.symm
    exact decode?_of_run (WordReader.run_congr hrun hsame).2 address
  · have hwords : 1 + 2 * model.operandWords ≤ words.length := by
      cases model <;> exact Nat.le_trans (by decide) hlength
    exact (Decode.reader_within model).run_error hwords (decode?_eq_error h) available

/-- MOVE.L with two full extension words takes all eleven words on the last model, and the word
behind them makes no difference. The first model has no RTD, and with eleven words at hand that is what it says. -/
theorem decoding_exact_longest :
    (∃ inst, decode? .m68020 0x1000
        [0x21B0, 0x0173, 0, 1, 0, 2, 0x0173, 0, 3, 0, 4, 0x4E71] = .ok inst ∧ inst.length = 22 ∧
      decode? .m68020 0x1000
        [0x21B0, 0x0173, 0, 1, 0, 2, 0x0173, 0, 3, 0, 4] = .ok inst) ∧
      ∃ e, decode? .m68000 0x1000 [0x4E74, 0, 0, 0, 0, 0, 0, 0, 0, 0, 0] = .error e ∧
        ∀ available, e ≠ .truncated available := by
  refine ⟨⟨_, rfl, rfl, ?_⟩, _, rfl, ?_⟩
  · exact ((decoding_exact .m68020 0x1000
      [0x21B0, 0x0173, 0, 1, 0, 2, 0x0173, 0, 3, 0, 4, 0x4E71]).1 _ rfl).2.2.2.2 _ ⟨[], rfl⟩
  · exact (decoding_exact .m68000 0x1000 [0x4E74, 0, 0, 0, 0, 0, 0, 0, 0, 0, 0]).2 _ (by decide) rfl

end Dynarec68k
