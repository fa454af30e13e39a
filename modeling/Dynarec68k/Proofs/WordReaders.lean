import Dynarec68k.Isa.Decode

namespace Dynarec68k.WordReader

variable {words words' : List UInt16} {count m n position : Nat}

variable {α β : Type}

/-- Every result a reader can have satisfies `P`. -/
def Ensures (P : α → Prop) : WordReader α → Prop
  | .done value => P value
  | .fail _ => True
  | .word next => ∀ position w, (next position w).Ensures P

namespace Ensures

variable {P Q : α → Prop} {r : WordReader α}

theorem mono (h : r.Ensures P) (himp : ∀ value, P value → Q value) : r.Ensures Q := by
  induction r with
  | done value => exact himp value h
  | fail => trivial
  | word next ih => exact fun position w => ih position w (h position w)

theorem always (r : WordReader α) : r.Ensures fun _ => True := by
  induction r with
  | done => trivial
  | fail => trivial
  | word next ih => exact ih

theorem bind {P : β → Prop} {f : α → WordReader β} (hr : r.Ensures Q)
    (hf : ∀ value, Q value → (f value).Ensures P) : (r >>= f).Ensures P := by
  induction r with
  | done value => exact hf value hr
  | fail => trivial
  | word next ih => exact fun position w => ih position w (hr position w)

theorem of_run (h : r.Ensures P) {value : α} (hrun : r.run position words = .ok (value, count)) :
    P value := by
  induction r generalizing position words with
  | done result =>
    simp only [run, Except.ok.injEq, Prod.mk.injEq] at hrun
    exact hrun.1 ▸ h
  | fail error => simp [run] at hrun
  | word next ih =>
    cases words with
    | nil => simp [run] at hrun
    | cons w rest => exact ih position w (h position w) hrun

end Ensures

/-- A reader asks for at most `n` words, whatever words it is given, and never claims by itself that
they ran out. -/
def AtMost : Nat → WordReader α → Prop
  | _, .done _ => True
  | _, .fail error => ∀ available, error ≠ .truncated available
  | 0, .word _ => False
  | n + 1, .word next => ∀ position w, AtMost n (next position w)

namespace AtMost

variable {r : WordReader α}

theorem done (v : α) : AtMost n (.done v) := by
  cases n <;> trivial

theorem fail {e : DecodeError} (h : ∀ available, e ≠ .truncated available) :
    AtMost n (.fail e : WordReader α) := by
  cases n <;> exact h

theorem mono (h : AtMost n r) (hle : n ≤ m) : AtMost m r := by
  induction r generalizing n m with
  | done v => exact .done v
  | fail e =>
    refine .fail ?_
    cases n <;> exact h
  | word next ih =>
    cases n with
    | zero => exact absurd h not_false
    | succ n =>
      cases m with
      | zero => exact absurd hle (Nat.not_succ_le_zero n)
      | succ m =>
        intro position w
        exact ih position w (h position w) (Nat.le_of_succ_le_succ hle)

theorem bind (h : AtMost n r) {f : α → WordReader β} (hf : ∀ v, AtMost m (f v)) :
    AtMost (n + m) (r >>= f) := by
  induction r generalizing n with
  | done v => exact (hf v).mono (Nat.le_add_left m n)
  | fail e =>
    refine .fail ?_
    cases n <;> exact h
  | word next ih =>
    cases n with
    | zero => exact absurd h not_false
    | succ n =>
      rw [Nat.add_right_comm]
      intro position w
      exact ih position w (h position w)

theorem map (h : AtMost n r) (f : α → β) : AtMost n (r >>= fun v => .done (f v)) :=
  h.bind fun v => done (f v) (n := 0)

theorem run_le (h : AtMost n r) {v : α} (hrun : r.run position words = .ok (v, count)) :
    count ≤ position + n := by
  induction r generalizing n position words with
  | done v' =>
    obtain ⟨-, rfl⟩ := Prod.mk.inj (Except.ok.inj hrun)
    exact Nat.le_add_right _ _
  | fail e => cases hrun
  | word next ih =>
    cases n with
    | zero => exact absurd h not_false
    | succ n =>
      cases words with
      | nil => cases hrun
      | cons w rest =>
        have hrest := ih position w (h position w) hrun
        omega

theorem run_error (h : AtMost n r) (hlength : n ≤ words.length) {e : DecodeError}
    (hrun : r.run position words = .error e) (available : Nat) : e ≠ .truncated available := by
  induction r generalizing n position words with
  | done v => cases hrun
  | fail e' =>
    obtain rfl : e' = e := Except.error.inj hrun
    cases n <;> exact h available
  | word next ih =>
    cases n with
    | zero => exact absurd h not_false
    | succ n =>
      cases words with
      | nil => exact absurd hlength (Nat.not_succ_le_zero n)
      | cons w rest =>
        exact ih position w (h position w) (Nat.le_of_succ_le_succ hlength) hrun

end AtMost

/-- A reader asks for `n` words and takes whatever they are, to a value that satisfies `Q`. -/
inductive Fixed (Q : α → Prop) : Nat → WordReader α → Prop
  | done {v : α} (h : Q v) : Fixed Q 0 (.done v)
  | word {n : Nat} {next : Nat → UInt16 → WordReader α}
      (h : ∀ position w, Fixed Q n (next position w)) : Fixed Q (n + 1) (.word next)

/-- A reader asks for `n` words and refuses them, whatever they are. -/
inductive Barred : Nat → WordReader α → Prop
  | fail (e : DecodeError) : Barred 0 (.fail e)
  | word {n : Nat} {next : Nat → UInt16 → WordReader α}
      (h : ∀ position w, Barred n (next position w)) : Barred (n + 1) (.word next)

namespace Fixed

variable {Q : α → Prop} {P : β → Prop} {r : WordReader α}

theorem bind {f : α → WordReader β} (h : Fixed Q n r) (hf : ∀ v, Q v → Fixed P m (f v)) :
    Fixed P (m + n) (r >>= f) := by
  induction h with
  | done h => exact hf _ h
  | word h ih => exact .word ih

theorem barred {f : α → WordReader β} (h : Fixed Q n r) (hf : ∀ v, Q v → Barred m (f v)) :
    Barred (m + n) (r >>= f) := by
  induction h with
  | done h => exact hf _ h
  | word h ih => exact .word ih

theorem next : Fixed (fun _ => True) 1 next :=
  .word fun _ _ => .done trivial

theorem nextLong : Fixed (fun _ => True) 2 nextLong :=
  next.bind fun _ _ => next.bind fun _ _ => .done trivial

theorem within (h : Fixed Q n r) : AtMost n r := by
  induction h with
  | done h => trivial
  | word h ih => exact ih

theorem ensures (h : Fixed Q n r) : r.Ensures Q := by
  induction h with
  | done h => exact h
  | word h ih => exact ih

theorem run_error_iff (h : Fixed Q n r) :
    (∃ e, r.run position words = .error e) ↔ words.length < n := by
  induction h generalizing position words with
  | done h => exact ⟨fun ⟨_, he⟩ => (by cases he), fun h => absurd h (Nat.not_lt_zero _)⟩
  | word h ih =>
    cases words with
    | nil => exact ⟨fun _ => Nat.succ_pos _, fun _ => ⟨_, rfl⟩⟩
    | cons w rest => exact (ih position w).trans Nat.succ_lt_succ_iff.symm

end Fixed

namespace Barred

variable {r : WordReader α}

theorem bind (h : Barred n r) (f : α → WordReader β) : Barred n (r >>= f) := by
  induction h with
  | fail e => exact .fail e
  | word h ih => exact .word ih

theorem run (h : Barred n r) (position : Nat) (words : List UInt16) :
    ∃ e, r.run position words = .error e := by
  induction h generalizing position words with
  | fail e => exact ⟨e, rfl⟩
  | word h ih =>
    cases words with
    | nil => exact ⟨_, rfl⟩
    | cons w rest => exact ih position w _ rest

end Barred

/-- The readers of a family all ask for as many words, and all of them take them or none. -/
def Rigid (n : Nat) (f : α → WordReader β) : Prop :=
  ∃ m ≤ n, (∀ v, Fixed (fun _ => True) m (f v)) ∨ ∀ v, Barred m (f v)

namespace Rigid

variable {f : α → WordReader β}

theorem run_error (h : Rigid n f) (v : α) (hlength : words'.length = words.length) {e : DecodeError}
    (hrun : (f v).run position words = .error e) : ∃ e', (f v).run position words' = .error e' := by
  obtain ⟨m, -, hfixed | hbarred⟩ := h
  · rw [(hfixed v).run_error_iff, hlength]
    exact (hfixed v).run_error_iff.mp ⟨e, hrun⟩
  · exact (hbarred v).run position words'

theorem run_le (h : Rigid n f) (v : α) {value : β}
    (hrun : (f v).run position words = .ok (value, count)) : count ≤ position + n := by
  obtain ⟨m, hm, hfixed | hbarred⟩ := h
  · exact Nat.le_trans ((hfixed v).within.run_le hrun) (Nat.add_le_add_left hm position)
  · obtain ⟨e, he⟩ := (hbarred v).run position words
    cases hrun.symm.trans he

end Rigid

theorem run_le {r : WordReader α} {v : α} (h : r.run position words = .ok (v, count)) :
    count ≤ position + words.length := by
  induction r generalizing position words with
  | done v' =>
    obtain ⟨rfl, rfl⟩ := Prod.mk.inj (Except.ok.inj h)
    exact Nat.le_add_right _ _
  | fail e => cases h
  | word next ih =>
    cases words with
    | nil => cases h
    | cons w rest =>
      have hrest := ih position w h
      rw [List.length_cons]
      omega

theorem run_congr {r : WordReader α} {v : α} (hrun : r.run position words = .ok (v, count))
    (hsame : words'.take (count - position) = words.take (count - position)) :
    position ≤ count ∧ r.run position words' = .ok (v, count) := by
  induction r generalizing position words words' with
  | done v' =>
    obtain ⟨rfl, rfl⟩ := Prod.mk.inj (Except.ok.inj hrun)
    exact ⟨Nat.le_refl _, rfl⟩
  | fail e => cases hrun
  | word next ih =>
    cases words with
    | nil => cases hrun
    | cons w rest =>
      have hrest : (next position w).run (position + 1) rest = .ok (v, count) := hrun
      have hle : position + 1 ≤ count := (ih position w hrest rfl).1
      obtain ⟨k, hk⟩ : ∃ k, count - position = k + 1 := ⟨count - position - 1, by omega⟩
      rw [hk, List.take_succ_cons] at hsame
      cases words' with
      | nil => cases hsame
      | cons w' rest' =>
        rw [List.take_succ_cons] at hsame
        obtain ⟨rfl, htail⟩ := List.cons.inj hsame
        have hk' : count - (position + 1) = k := by omega
        rw [← hk'] at htail
        exact ⟨by omega, (ih position w' hrest htail).2⟩

end Dynarec68k.WordReader
