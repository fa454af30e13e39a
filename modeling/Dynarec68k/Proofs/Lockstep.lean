import Dynarec68k.Proofs.FragmentTargets
import Mathlib.Logic.Relation

/-!
Two hosts inside two fragments that keep pace with each other. Between the services that a fragment
asks for, one host may need more operations than the other; where one asks for a service, the other
comes to ask for the same, and the two agree as far as the service looks.

`Paced` says so of two positions, and `Sim` of two fragments, with a precondition and a
postcondition. Its rules follow how fragments are put together.
-/

namespace Dynarec68k

open Host Relation Codegen Fragment List

variable {F F' e f f' : Fragment} {m m' n n' : Machine} {i i' j j' k k' : Nat}
  {a b : RegisterAssignment} (t : Test)

/-- Operations of the host alone that go on with the next one. -/
def Host.Op.isData : Host.Op → Bool
  | .mov _ _ _ => true
  | .movsx _ _ _ _ => true
  | .movzx _ _ _ _ => true
  | .alu _ _ _ _ => true
  | .unary _ _ _ => true
  | .shift _ _ _ _ => true
  | .bit _ _ _ _ => true
  | .setTest _ _ => true
  | .lea _ _ _ => true
  | _ => false

/-- One operation of a fragment that no service has a part in: a position and a host before it, and
after it. -/
inductive Fragment.Moves (f : Fragment) : Nat × Machine → Nat × Machine → Prop where
  | data {i : Nat} {m m' : Machine} {o : Host.Op} (hitem : f[i]? = some (.op o))
      (hdata : o.isData = true) (hperform : m.perform o = .ok m') : Moves f (i, m) (i + 1, m')
  | skip {i k : Nat} {m : Machine} (hitem : f[i]? = some (.op (.jump (Int32.ofNat k)))) :
      Moves f (i, m) (i + 1 + k, m)
  | taken {i k : Nat} {m : Machine} {t : Test}
      (hitem : f[i]? = some (.op (.jumpIf t (Int32.ofNat k))))
      (htest : m.state.flags.holds t = true) : Moves f (i, m) (i + 1 + k, m)
  | passed {i : Nat} {m : Machine} {t : Test} {rel : Int32}
      (hitem : f[i]? = some (.op (.jumpIf t rel))) (htest : m.state.flags.holds t = false) :
      Moves f (i, m) (i + 1, m)
  | back {i j k : Nat} {m : Machine} {t : Test}
      (hitem : f[i]? = some (.op (.jumpIf t (-Int32.ofNat k))))
      (htest : m.state.flags.holds t = true) (htarget : j + k = i + 1) : Moves f (i, m) (j, m)

/-- Number of jumps to guest addresses before a position. -/
def Fragment.links (f : Fragment) (i : Nat) : Nat :=
  (targets (f.take i)).length

/-- One fragment stands inside another, from a position on. -/
def Fragment.StandsAt (f : Fragment) (F : Fragment) (k : Nat) : Prop :=
  ∀ i < f.length, F[k + i]? = f[i]?

namespace Fragment

theorem standsAt_right (e f : Fragment) : StandsAt f (e ++ f) e.length := by
  intro i _
  rw [getElem?_append_right (Nat.le_add_right _ _), Nat.add_sub_cancel_left]

theorem standsAt_left (e f : Fragment) : StandsAt e (e ++ f) 0 := by
  intro i hi
  rw [Nat.zero_add, getElem?_append_left hi]

theorem standsAt_self (f : Fragment) : f.StandsAt f 0 := by
  intro i _
  rw [Nat.zero_add]

theorem StandsAt.getElem? (h : f.StandsAt F k) {item : Item} (hitem : f[i]? = some item) :
    F[k + i]? = some item := by
  obtain ⟨hi, -⟩ := List.getElem?_eq_some_iff.mp hitem
  exact (h i hi).trans hitem

theorem StandsAt.trans (h : e.StandsAt f i) (h' : f.StandsAt F k) : e.StandsAt F (k + i) := by
  intro c hc
  rw [Nat.add_assoc]
  have hitem := h c hc
  rw [getElem?_eq_getElem hc] at hitem ⊢
  exact h'.getElem? hitem

theorem StandsAt.moves (h : f.StandsAt F k) (hmoves : f.Moves (i, m) (i', m')) :
    F.Moves (k + i, m) (k + i', m') := by
  cases hmoves with
  | data hitem hdata hperform => exact .data (h.getElem? hitem) hdata hperform
  | @skip _ c _ hitem =>
    have hskip : F.Moves (k + i, m) (k + i + 1 + c, m) := .skip (h.getElem? hitem)
    rwa [show k + i + 1 + c = k + (i + 1 + c) by omega] at hskip
  | @taken _ c _ _ hitem htest =>
    have htaken : F.Moves (k + i, m) (k + i + 1 + c, m) := .taken (h.getElem? hitem) htest
    rwa [show k + i + 1 + c = k + (i + 1 + c) by omega] at htaken
  | passed hitem htest => exact .passed (h.getElem? hitem) htest
  | back hitem htest htarget => exact .back (h.getElem? hitem) htest (by omega)

theorem StandsAt.path (h : f.StandsAt F k) (hpath : ReflTransGen f.Moves (i, m) (i', m')) :
    ReflTransGen F.Moves (k + i, m) (k + i', m') :=
  hpath.lift (fun x : Nat × Machine => (k + x.1, x.2)) fun _ _ hmoves => h.moves hmoves

theorem StandsAt.links (h : f.StandsAt F k) (hi : i ≤ f.length) :
    F.links (k + i) = F.links k + f.links i := by
  have htake : (F.drop k).take i = f.take i := by
    apply ext_getElem?
    intro c
    rw [getElem?_take, getElem?_take, getElem?_drop]
    split
    · exact h c (by omega)
    · rfl
  rw [Fragment.links, take_add, htake, targets_append, length_append]
  rfl

theorem links_append (e f : Fragment) : (e ++ f).links e.length = (targets e).length := by
  rw [links, take_left]

theorem skipIf_length (f : Fragment) : (skipIf t f).length = 0 + 1 + f.length := by
  rw [skipIf, length_append]
  rfl

theorem repeatWhile_length (f : Fragment) : (repeatWhile t f).length = f.length + 1 := by
  rw [repeatWhile, length_append]
  rfl

theorem repeatWhile_last (f : Fragment) : (repeatWhile t f)[f.length]? =
    some (.op (.jumpIf t (-Int32.ofNat (f.length + 1)))) := by
  rw [repeatWhile, getElem?_append_right (Nat.le_refl _), Nat.sub_self]
  rfl

/-- One fragment or the other, by a test: the jump over the first, the first, the jump over the
second, the second. -/
def choice (t : Test) (e f : Fragment) : Fragment :=
  jumpOverIf t (e.length + 1) ++ e ++ skip f

theorem choice_length (e f : Fragment) :
    (choice t e f).length = 0 + 1 + (e.length + 1) + f.length := by
  rw [choice, length_append, length_append]
  simp only [jumpOverIf, skip, length_cons, length_nil]
  omega

theorem choice_head (e f : Fragment) :
    (choice t e f)[0]? = some (.op (.jumpIf t (Int32.ofNat (e.length + 1)))) :=
  rfl

theorem choice_first (e f : Fragment) : e.StandsAt (choice t e f) (0 + 1) := by
  intro i hi
  rw [choice, append_assoc, getElem?_append_right (Nat.le_add_right 1 i)]
  have hindex : 0 + 1 + i - (jumpOverIf t (e.length + 1)).length = i := by
    simp only [jumpOverIf, length_cons, length_nil]
    omega
  rw [hindex, getElem?_append_left hi]

theorem choice_jump (e f : Fragment) :
    (choice t e f)[0 + 1 + e.length]? = some (.op (.jump (Int32.ofNat f.length))) := by
  have hposition : (jumpOverIf t (e.length + 1) ++ e).length = 0 + 1 + e.length := by
    rw [length_append]
    rfl
  rw [choice, ← hposition, getElem?_append_right (Nat.le_refl _), Nat.sub_self]
  rfl

theorem choice_second (e f : Fragment) : f.StandsAt (choice t e f) (0 + 1 + (e.length + 1)) := by
  have hstands := standsAt_right (jumpOverIf t (e.length + 1) ++ e ++
    [Item.op (.jump (Int32.ofNat f.length))]) f
  have hwhole : jumpOverIf t (e.length + 1) ++ e ++
      [Item.op (.jump (Int32.ofNat f.length))] ++ f = choice t e f := by
    rw [append_assoc, choice, skip]
    rfl
  have hposition : (jumpOverIf t (e.length + 1) ++ e ++
      [Item.op (.jump (Int32.ofNat f.length))]).length = 0 + 1 + (e.length + 1) := by
    rw [length_append, length_append]
    simp only [jumpOverIf, length_cons, length_nil]
    omega
  rwa [hwhole, hposition] at hstands

theorem choice_links (e f : Fragment) :
    (choice t e f).links (0 + 1 + (e.length + 1)) = (targets e).length := by
  have htake : (choice t e f).take (0 + 1 + (e.length + 1)) =
      jumpOverIf t (e.length + 1) ++ e ++ [Item.op (.jump (Int32.ofNat f.length))] := by
    rw [choice, take_append, length_append]
    have hlength : (jumpOverIf t (e.length + 1)).length = 1 := rfl
    rw [take_of_length_le (by rw [length_append, hlength]; omega), hlength,
      show 0 + 1 + (e.length + 1) - (1 + e.length) = 1 by omega]
    rfl
  rw [links, htake, targets_append, targets_append]
  simp [jumpOverIf]

/-- Two fragments that are never fallen out of, each behind a test: a test for the first, an
operation, a test for the second, and a jump over both stand in front of them. -/
def trapped (t r : Test) (o : Host.Op) (e f : Fragment) : Fragment :=
  [.op (.jumpIf t (Int32.ofNat 3)), .op o, .op (.jumpIf r (Int32.ofNat (1 + e.length))),
    .op (.jump (Int32.ofNat (e.length + f.length)))] ++ (e ++ f)

theorem trapped_eq (t r : Test) (o : Host.Op) (e f : Fragment) : trapped t r o e f =
    jumpOverIf t 3 ++ [.op o] ++ jumpOverIf r (1 + e.length) ++
      skip (e ++ f) := by
  rw [skip, length_append]
  rfl

theorem trapped_length (t r : Test) (o : Host.Op) (e f : Fragment) :
    (trapped t r o e f).length = 4 + (e.length + f.length) := by
  rw [trapped, length_append, length_append]
  rfl

theorem trapped_head (t r : Test) (o : Host.Op) (e f : Fragment) (hi : i < 4) :
    (trapped t r o e f)[i]? =
      [Item.op (.jumpIf t (Int32.ofNat 3)), .op o, .op (.jumpIf r (Int32.ofNat (1 + e.length))),
        .op (.jump (Int32.ofNat (e.length + f.length)))][i]? :=
  getElem?_append_left hi

theorem trapped_first (t r : Test) (o : Host.Op) (e f : Fragment) :
    e.StandsAt (trapped t r o e f) 4 := by
  intro i hi
  rw [trapped, getElem?_append_right (Nat.le_add_right 4 i), ← getElem?_append_left hi]
  exact congrArg (fun k => (e ++ f)[k]?) (Nat.add_sub_cancel_left 4 i)

theorem trapped_second (t r : Test) (o : Host.Op) (e f : Fragment) :
    f.StandsAt (trapped t r o e f) (4 + e.length) := by
  intro i hi
  rw [trapped, Nat.add_assoc, getElem?_append_right (Nat.le_add_right 4 (e.length + i)),
    ← standsAt_right e f i hi]
  exact congrArg (fun k => (e ++ f)[k]?) (Nat.add_sub_cancel_left 4 (e.length + i))

theorem trapped_links (t r : Test) (o : Host.Op) (e f : Fragment) :
    (trapped t r o e f).links (4 + e.length) = (targets e).length := by
  rw [(trapped_first t r o e f).links (Nat.le_refl _), links, links, take_length]
  exact Nat.zero_add _

end Fragment

/-- Bytes of the register file that only services change: in user mode the stack pointer not in use,
and always the upper byte of the status register. -/
def RegisterFile.Kept (user : Bool) (offset : Nat) : Prop :=
  user = true ∧ 64 ≤ offset ∧ offset < 68 ∨ offset = RegisterFile.statusOffset

theorem RegisterFile.Kept.low {user : Bool} {offset : Nat} (h : RegisterFile.Kept user offset) :
    64 ≤ offset := by
  rcases h with ⟨-, hlow, -⟩ | rfl
  · exact hlow
  · decide

/-- Between services a host leaves alone the cycle limit and what only services change, and stays
ready. -/
structure Host.Machine.Confined (u : Bool) (m m' : Machine) : Prop where
  kept : ∀ k, RegisterFile.Kept u k → m'.file.byteAt k = m.file.byteAt k
  limit : m'.state.reg Role.limit = m.state.reg Role.limit
  ready : m.Ready → m'.Ready

theorem Host.Machine.Confined.refl (u : Bool) (m : Machine) : Machine.Confined u m m :=
  ⟨fun _ _ => rfl, rfl, id⟩

/-- Two hosts after a service that gave them back control. -/
structure Returned (a b : RegisterAssignment) (u : Bool) (grade : Grade) (m n m' n' : Machine) :
    Prop where
  alike : Alike grade a b m' n'
  left : a.spill m' = m'.file
  right : b.spill n' = n'.file
  scratch : ∀ s : Scratch, s ≠ .first → s ≠ .cycles → m'.state.reg s.reg = m.state.reg s.reg
  kept : u = true → ∀ k, RegisterFile.Kept true k → m'.file.byteAt k = m.file.byteAt k

/-- Items that ask for something outside the fragment, how far hosts have to agree there, and how
far they agree where it gives back control. -/
inductive Asks (u : Bool) : Item → Grade → Grade → Prop where
  | access {gate : Gate} (hgate : gate.isAccess = true) : Asks u (.call gate) .tight .tight
  | service {g : Grade} {s : Service} (hs : s.comesBack = true)
      (hg : s.takesFirst = true → g = .tight) (hu : u = true → s.privileged = false) :
      Asks u (.op (.service s)) g g
  | leave {g : Grade} {s : Service} (hs : s.goesAway = true)
      (hg : s.takesFirst = true → g = .tight) (hu : u = true → s.privileged = false) :
      Asks u (.op (.service s)) g .stop
  | goto {t : UInt32} : Asks u (.goto t) .loose .stop

/-- A relation between two hosts, each at a position. -/
abbrev Pairing :=
  Nat → Machine → Nat → Machine → Prop

/-- What the left host does next has an answer of the right one, and leads to hosts that are
related. -/
inductive Answered (a b : RegisterAssignment) (u : Bool) (f f' : Fragment) (R : Pairing) (i : Nat)
    (m : Machine) (j : Nat) (n : Machine) : Prop where
  | moves {i' j' : Nat} {m' n' : Machine} (left : f.Moves (i, m) (i', m'))
      (kept : Machine.Confined u m m') (right : ReflTransGen f'.Moves (j, n) (j', n'))
      (next : R i' m' j' n')
  | asks {j' : Nat} {n' : Machine} {item : Item} {g h : Grade} (left : f[i]? = some item)
      (path : ReflTransGen f'.Moves (j, n) (j', n')) (right : f'[j']? = some item)
      (aligned : f.links i = f'.links j') (alike : Alike g a b m n') (ask : Asks u item g h)
      (next : ∀ m' n'', Returned a b u h m n' m' n'' → R (i + 1) m' (j' + 1) n'')
  /-- A jump to a guest address in the first scratch register. -/
  | jumps {j' : Nat} {n' : Machine}
      (left : jumpComputed.StandsAt f i)
      (path : ReflTransGen f'.Moves (j, n) (j', n'))
      (right : jumpComputed.StandsAt f' j') (alike : Alike .tight a b m n')

namespace Answered

variable {u : Bool} {R S : Pairing}

theorem mono (h : Answered a b u f f' R i m j n) (hR : ∀ i m j n, R i m j n → S i m j n) :
    Answered a b u f f' S i m j n := by
  cases h with
  | moves left kept right next => exact .moves left kept right (hR _ _ _ _ next)
  | asks left path right aligned alike ask next =>
    exact .asks left path right aligned alike ask
      fun m' n' hreturned => hR _ _ _ _ (next m' n' hreturned)
  | jumps left path right alike => exact .jumps left path right alike

theorem after (hpath : ReflTransGen f'.Moves (j, n) (j', n')) (h : Answered a b u f f' R i m j' n') :
    Answered a b u f f' R i m j n := by
  cases h with
  | moves left kept right next => exact .moves left kept (hpath.trans right) next
  | asks left path right aligned alike ask next =>
    exact .asks left (hpath.trans path) right aligned alike ask next
  | jumps left path right alike => exact .jumps left (hpath.trans path) right alike

theorem embed (h : Answered a b u f f' R i m j n) (hf : f.StandsAt F k) (hf' : f'.StandsAt F' k')
    (hlinks : F.links k = F'.links k') :
    Answered a b u F F'
      (fun I m J n => ∃ i j, I = k + i ∧ J = k' + j ∧ R i m j n) (k + i) m (k' + j) n := by
  cases h with
  | moves left kept right next =>
    exact .moves (hf.moves left) kept (hf'.path right) ⟨_, _, rfl, rfl, next⟩
  | asks left path right aligned alike ask next =>
    obtain ⟨hi, -⟩ := List.getElem?_eq_some_iff.mp left
    obtain ⟨hj, -⟩ := List.getElem?_eq_some_iff.mp right
    refine .asks (hf.getElem? left) (hf'.path path) (hf'.getElem? right) ?_ alike ask
      fun m' n' hreturned => ⟨_, _, rfl, rfl, next m' n' hreturned⟩
    rw [hf.links (Nat.le_of_lt hi), hf'.links (Nat.le_of_lt hj), hlinks, aligned]
  | jumps left path right alike =>
    exact .jumps (left.trans hf) (hf'.path path) (right.trans hf') alike

end Answered

/-- Hosts that are related go on being related inside two fragments, until they fall out of them and
satisfy `Post`. -/
structure Closed (a b : RegisterAssignment) (u : Bool) (f f' : Fragment)
    (Post : Machine → Machine → Prop) (R : Pairing) : Prop where
  bound : ∀ {i m j n}, R i m j n → i ≤ f.length
  answered : ∀ {i m j n}, R i m j n → i < f.length → Answered a b u f f' R i m j n
  leaves : ∀ {m j n}, R f.length m j n →
    ∃ n', ReflTransGen f'.Moves (j, n) (f'.length, n') ∧ Post m n'

/-- Two hosts keep pace inside two fragments. -/
def Paced (a b : RegisterAssignment) (u : Bool) (f f' : Fragment)
    (Post : Machine → Machine → Prop) : Pairing :=
  fun i m j n => ∃ R : Pairing, Closed a b u f f' Post R ∧ R i m j n

namespace Paced

variable {u : Bool}
  {Pre Mid Post : Machine → Machine → Prop}

theorem closed : Closed a b u f f' Post (Paced a b u f f' Post) where
  bound := by
    rintro i m j n ⟨R, hclosed, hR⟩
    exact hclosed.bound hR
  answered := by
    rintro i m j n ⟨R, hclosed, hR⟩ hi
    exact (hclosed.answered hR hi).mono fun _ _ _ _ hnext => ⟨R, hclosed, hnext⟩
  leaves := by
    rintro m j n ⟨R, hclosed, hR⟩
    exact hclosed.leaves hR

theorem of_answered (hi : i < f.length)
    (h : Answered a b u f f' (Paced a b u f f' Post) i m j n) : Paced a b u f f' Post i m j n := by
  refine ⟨fun i' m' j' n' => (i' < f.length ∧
      Answered a b u f f' (Paced a b u f f' Post) i' m' j' n') ∨ Paced a b u f f' Post i' m' j' n',
    ⟨?_, ?_, ?_⟩, .inl ⟨hi, h⟩⟩
  · rintro i m j n (⟨hi, -⟩ | hpaced)
    · exact Nat.le_of_lt hi
    · exact closed.bound hpaced
  · rintro i m j n (⟨-, hanswered⟩ | hpaced) hi
    · exact hanswered.mono fun _ _ _ _ hnext => .inr hnext
    · exact (closed.answered hpaced hi).mono fun _ _ _ _ hnext => .inr hnext
  · rintro m j n (⟨hi, -⟩ | hpaced)
    · exact absurd hi (Nat.lt_irrefl _)
    · exact closed.leaves hpaced

theorem of_end (f f' : Fragment) (hpath : ReflTransGen f'.Moves (j, n) (f'.length, n'))
    (hpost : Post m n') : Paced a b u f f' Post f.length m j n := by
  refine ⟨fun i' m' j' n'' => i' = f.length ∧ ∃ n', ReflTransGen f'.Moves (j', n'') (f'.length, n') ∧
    Post m' n', ⟨?_, ?_, ?_⟩, rfl, n', hpath, hpost⟩
  · rintro i m j n ⟨rfl, -⟩
    exact Nat.le_refl _
  · rintro i m j n ⟨rfl, -⟩ hi
    exact absurd hi (Nat.lt_irrefl _)
  · rintro m j n ⟨-, hleaves⟩
    exact hleaves

theorem after (hpath : ReflTransGen f'.Moves (j, n) (j', n')) (h : Paced a b u f f' Post i m j' n') :
    Paced a b u f f' Post i m j n := by
  rcases Nat.lt_or_eq_of_le (closed.bound h) with hi | rfl
  · exact of_answered hi ((closed.answered h hi).after hpath)
  · obtain ⟨n'', hrest, hpost⟩ := closed.leaves h
    exact of_end f f' (hpath.trans hrest) hpost

/-- Hosts that keep pace inside two fragments do so wherever these stand, if they keep pace behind
them. -/
theorem embed (hf : f.StandsAt F k) (hf' : f'.StandsAt F' k') (hlinks : F.links k = F'.links k')
    (h : Paced a b u f f' Mid i m j n)
    (hrest : ∀ m n, Mid m n → Paced a b u F F' Post (k + f.length) m (k' + f'.length) n)
    (hlength : k + f.length ≤ F.length) : Paced a b u F F' Post (k + i) m (k' + j) n := by
  -- At the end of the inner fragments the right host catches up, and the rest takes over.
  have hend {m j n} (hinner : Paced a b u f f' Mid f.length m j n) :
      Paced a b u F F' Post (k + f.length) m (k' + j) n := by
    obtain ⟨n', hpath, hmid⟩ := closed.leaves hinner
    exact (hrest m n' hmid).after (hf'.path hpath)
  refine ⟨fun I m J n => (∃ i j, I = k + i ∧ J = k' + j ∧ Paced a b u f f' Mid i m j n) ∨
    Paced a b u F F' Post I m J n, ⟨?_, ?_, ?_⟩, .inl ⟨i, j, rfl, rfl, h⟩⟩
  · rintro I m J n (⟨i, j, rfl, rfl, hinner⟩ | houter)
    · have hi := closed.bound hinner
      omega
    · exact closed.bound houter
  · rintro I m J n (⟨i, j, rfl, rfl, hinner⟩ | houter) hI
    · rcases Nat.lt_or_eq_of_le (closed.bound hinner) with hi | rfl
      · exact ((closed.answered hinner hi).embed hf hf' hlinks).mono fun _ _ _ _ hnext => .inl hnext
      · exact (closed.answered (hend hinner) hI).mono fun _ _ _ _ hnext => .inr hnext
    · exact (closed.answered houter hI).mono fun _ _ _ _ hnext => .inr hnext
  · rintro m J n (⟨i, j, hi, rfl, hinner⟩ | houter)
    · have hbound := closed.bound hinner
      obtain rfl : i = f.length := by omega
      have houter := hend hinner
      rw [← hi] at houter
      exact closed.leaves houter
    · exact closed.leaves houter

end Paced

/-- Hosts that satisfy `Pre` keep pace from the start of two fragments on, and satisfy `Post` if
they fall out of them. -/
def Sim (a b : RegisterAssignment) (u : Bool) (Pre : Machine → Machine → Prop) (f f' : Fragment)
    (Post : Machine → Machine → Prop) : Prop :=
  ∀ m n, Pre m n → Paced a b u f f' Post 0 m 0 n

namespace Sim

variable {u : Bool} {e' : Fragment}
  {Pre Pre' Mid Post Post' : Machine → Machine → Prop}

theorem nil : Sim a b u Pre [] [] Pre := by
  intro m n hpre
  exact Paced.of_end [] [] .refl hpre

theorem of_false (h : ∀ m n, ¬Pre m n) : Sim a b u Pre f f' Post := by
  intro m n hpre
  exact absurd hpre (h m n)

theorem within (p : Sim a b u Pre f f' Mid) (hf : f.StandsAt F k) (hf' : f'.StandsAt F' k')
    (hlinks : F.links k = F'.links k') (hlength : k + f.length ≤ F.length)
    (hrest : ∀ m n, Mid m n → Paced a b u F F' Post (k + f.length) m (k' + f'.length) n)
    (hpre : Pre m n) : Paced a b u F F' Post k m k' n :=
  (p m n hpre).embed hf hf' hlinks hrest hlength

theorem append (hlinks : (targets e).length = (targets e').length)
    (p : Sim a b u Pre e e' Mid) (q : Sim a b u Mid f f' Post) :
    Sim a b u Pre (e ++ f) (e' ++ f') Post := by
  intro m n hpre
  refine p.within (standsAt_left e f) (standsAt_left e' f') rfl ?_ ?_ hpre
  · rw [length_append]
    omega
  · intro m n hmid
    rw [Nat.zero_add, Nat.zero_add]
    refine q.within (standsAt_right e f) (standsAt_right e' f') ?_ ?_ ?_ hmid
    · rw [links_append, links_append, hlinks]
    · rw [length_append]
    · intro m n hpost
      rw [← length_append, ← length_append]
      exact Paced.of_end _ _ .refl hpost

theorem mono (p : Sim a b u Pre f f' Post) (hpre : ∀ m n, Pre' m n → Pre m n)
    (hpost : ∀ m n, Post m n → Post' m n) : Sim a b u Pre' f f' Post' := by
  intro m n hm
  obtain ⟨R, ⟨hbound, hanswered, hleaves⟩, hR⟩ := p m n (hpre m n hm)
  refine ⟨R, ⟨hbound, hanswered, ?_⟩, hR⟩
  intro m j n hend
  obtain ⟨n', hpath, hlast⟩ := hleaves hend
  exact ⟨n', hpath, hpost m n' hlast⟩

theorem data {o o' : Host.Op} (ho : o.isData = true) (ho' : o'.isData = true)
    (h : ∀ m n, Pre m n → ∃ m' n', m.perform o = .ok m' ∧ n.perform o' = .ok n' ∧
      Machine.Confined u m m' ∧ Post m' n') :
    Sim a b u Pre [.op o] [.op o'] Post := by
  intro m n hpre
  obtain ⟨m', n', hm, hn, hkept, hpost⟩ := h m n hpre
  refine Paced.of_answered Nat.one_pos
    (.moves (.data rfl ho hm) hkept (.single (.data rfl ho' hn)) ?_)
  exact Paced.of_end [.op o] [.op o'] .refl hpost

theorem ask {item : Item} {g h : Grade} (hask : Asks u item g h)
    (halike : ∀ m n, Pre m n → Alike g a b m n)
    (hpost : ∀ m n m' n', Pre m n → Returned a b u h m n m' n' → Post m' n') :
    Sim a b u Pre [item] [item] Post := by
  intro m n hpre
  refine Paced.of_answered Nat.one_pos (.asks rfl .refl rfl rfl (halike m n hpre) hask ?_)
  intro m' n' hreturned
  exact Paced.of_end [item] [item] .refl (hpost m n m' n' hpre hreturned)

theorem computed (halike : ∀ m n, Pre m n → Alike .tight a b m n) :
    Sim a b u Pre jumpComputed jumpComputed Post := by
  intro m n hpre
  have hstands : jumpComputed.StandsAt jumpComputed 0 := by
    intro i _
    rw [Nat.zero_add]
  exact Paced.of_answered Nat.two_pos (.jumps hstands .refl hstands (halike m n hpre))

section

variable (hflags : ∀ m n, Pre m n → m.state.flags = n.state.flags)
include hflags

theorem skipIf {t : Test} (hskip : ∀ m n, Pre m n → m.state.flags.holds t = true → Post m n)
    (p : Sim a b u (fun m n => Pre m n ∧ m.state.flags.holds t = false) f f' Post) :
    Sim a b u Pre (Codegen.skipIf t f) (Codegen.skipIf t f') Post := by
  intro m n hpre
  have hend (m n : Machine) (hpost : Post m n) : Paced a b u (Codegen.skipIf t f)
      (Codegen.skipIf t f') Post (0 + 1 + f.length) m (0 + 1 + f'.length) n := by
    rw [← skipIf_length t, ← skipIf_length t]
    exact Paced.of_end _ _ .refl hpost
  have hfirst (f : Fragment) : (Codegen.skipIf t f)[0]? =
      some (.op (.jumpIf t (Int32.ofNat f.length))) := rfl
  refine Paced.of_answered (by rw [skipIf_length]; omega) ?_
  have hsame := hflags m n hpre
  by_cases htest : m.state.flags.holds t = true
  · refine .moves (.taken (hfirst f) htest) (.refl u m)
      (.single (.taken (hfirst f') (hsame ▸ htest))) ?_
    exact hend m n (hskip m n hpre htest)
  · have hfalse : m.state.flags.holds t = false := Bool.eq_false_iff.mpr htest
    refine .moves (.passed (hfirst f) hfalse) (.refl u m)
      (.single (.passed (hfirst f') (hsame ▸ hfalse))) ?_
    exact p.within (standsAt_right (Codegen.jumpOverIf t f.length) f)
      (standsAt_right (Codegen.jumpOverIf t f'.length) f') rfl
      (skipIf_length t f).ge hend ⟨hpre, hfalse⟩

theorem choose {t : Test} (hlinks : (targets e).length = (targets e').length)
    (p : Sim a b u (fun m n => Pre m n ∧ m.state.flags.holds t = false) e e' Post)
    (q : Sim a b u (fun m n => Pre m n ∧ m.state.flags.holds t = true) f f' Post) :
    Sim a b u Pre (choice t e f) (choice t e' f') Post := by
  intro m n hpre
  have hl := choice_length t e f
  have hend (m n : Machine) (hpost : Post m n) :
      Paced a b u (choice t e f) (choice t e' f') Post
        (0 + 1 + (e.length + 1) + f.length) m (0 + 1 + (e'.length + 1) + f'.length) n := by
    rw [← choice_length t, ← choice_length t]
    exact Paced.of_end _ _ .refl hpost
  refine Paced.of_answered (by omega) ?_
  have hsame := hflags m n hpre
  by_cases htest : m.state.flags.holds t = true
  · refine .moves (.taken (choice_head t e f) htest) (.refl u m)
      (.single (.taken (choice_head t e' f') (hsame ▸ htest))) ?_
    refine q.within (choice_second t e f) (choice_second t e' f') ?_ hl.ge hend
      ⟨hpre, htest⟩
    rw [choice_links, choice_links, hlinks]
  · have hfalse : m.state.flags.holds t = false := Bool.eq_false_iff.mpr htest
    refine .moves (.passed (choice_head t e f) hfalse) (.refl u m)
      (.single (.passed (choice_head t e' f') (hsame ▸ hfalse))) ?_
    refine p.within (choice_first t e f) (choice_first t e' f') rfl (by omega) ?_
      ⟨hpre, hfalse⟩
    intro m n hpost
    exact Paced.of_answered (by omega) (.moves (.skip (choice_jump t e f)) (.refl u m)
      (.single (.skip (choice_jump t e' f'))) (hend m n hpost))

theorem trapped {t r : Test} {o o' : Host.Op}
    (hlinks : (targets e).length = (targets e').length) (ho : o.isData = true)
    (ho' : o'.isData = true)
    (hop : ∀ m n, Pre m n → ∃ m' n', m.perform o = .ok m' ∧ n.perform o' = .ok n' ∧
      Machine.Confined u m m' ∧ Post m' n')
    (hflags' : ∀ m n, Post m n → m.state.flags = n.state.flags)
    (p : Sim a b u Pre e e' fun _ _ => False) (q : Sim a b u Post f f' fun _ _ => False) :
    Sim a b u Pre (trapped t r o e f) (trapped t r o' e' f') Post := by
  intro m n hpre
  have hl := trapped_length t r o e f
  have hl' := trapped_length t r o' e' f'
  have hitem {i : Nat} (hi : i < 4) := trapped_head t r o e f hi
  have hitem' {i : Nat} (hi : i < 4) := trapped_head t r o' e' f' hi
  have hend (m n : Machine) (hpost : Post m n) :=
    Paced.of_end (a := a) (b := b) (u := u) (Fragment.trapped t r o e f)
      (Fragment.trapped t r o' e' f') .refl hpost
  have hsame := hflags m n hpre
  refine Paced.of_answered (by omega) ?_
  by_cases htest : m.state.flags.holds t = true
  · exact .moves (.taken (hitem (i := 0) (by omega)) htest) (.refl u m)
      (.single (.taken (hitem' (i := 0) (by omega)) (hsame ▸ htest)))
      (p.within (trapped_first t r o e f) (trapped_first t r o' e' f') rfl
        (by omega) (fun _ _ hnever => hnever.elim) hpre)
  · have hfalse : m.state.flags.holds t = false := Bool.eq_false_iff.mpr htest
    refine .moves (.passed (hitem (i := 0) (by omega)) hfalse) (.refl u m)
      (.single (.passed (hitem' (i := 0) (by omega)) (hsame ▸ hfalse))) ?_
    obtain ⟨m', n', hm, hn, hkept, hpost⟩ := hop m n hpre
    refine Paced.of_answered (by omega) (.moves (.data (hitem (i := 1) (by omega)) ho hm) hkept
      (.single (.data (hitem' (i := 1) (by omega)) ho' hn)) ?_)
    have hsame' := hflags' m' n' hpost
    refine Paced.of_answered (by omega) ?_
    by_cases hlater : m'.state.flags.holds r = true
    · refine .moves (.taken (hitem (i := 2) (by omega)) hlater) (.refl u m')
        (.single (.taken (hitem' (i := 2) (by omega)) (hsame' ▸ hlater))) ?_
      have hposition (k : Nat) : 0 + 1 + 1 + 1 + (1 + k) = 4 + k := by omega
      rw [hposition, hposition]
      exact q.within (trapped_second t r o e f) (trapped_second t r o' e' f')
        (by rw [trapped_links, trapped_links, hlinks]) (by omega)
        (fun _ _ hnever => hnever.elim) hpost
    · have hlast : m'.state.flags.holds r = false := Bool.eq_false_iff.mpr hlater
      refine .moves (.passed (hitem (i := 2) (by omega)) hlast) (.refl u m')
        (.single (.passed (hitem' (i := 2) (by omega)) (hsame' ▸ hlast))) ?_
      refine Paced.of_answered (by omega) (.moves (.skip (hitem (i := 3) (by omega))) (.refl u m')
        (.single (.skip (hitem' (i := 3) (by omega)))) ?_)
      have hlanded := hend m' n' hpost
      rwa [hl, hl'] at hlanded

end

theorem loop {t : Test} (p : Sim a b u Pre f f' Mid)
    (hflags : ∀ m n, Mid m n → m.state.flags = n.state.flags)
    (hagain : ∀ m n, Mid m n → m.state.flags.holds t = true → Pre m n)
    (hdone : ∀ m n, Mid m n → m.state.flags.holds t = false → Post m n) :
    Sim a b u Pre (repeatWhile t f) (repeatWhile t f') Post := by
  have hlength := repeatWhile_length t
  have hlast := repeatWhile_last t
  have hstands (f : Fragment) : f.StandsAt (repeatWhile t f) 0 :=
    standsAt_left f _
  intro m n hpre
  -- Hosts inside the fragment are related, whatever turn they are in, and hosts behind the loop.
  refine ⟨fun i m j n => Paced a b u f f' Mid i m j n ∨
    i = f.length + 1 ∧ j = f'.length + 1 ∧ Post m n, ⟨?_, ?_, ?_⟩, .inl (p m n hpre)⟩
  · rintro i m j n (hinner | ⟨rfl, -⟩)
    · have hi := Paced.closed.bound hinner
      rw [hlength]
      omega
    · rw [hlength]
  · rintro i m j n (hinner | ⟨rfl, -⟩) hi
    · rcases Nat.lt_or_eq_of_le (Paced.closed.bound hinner) with hlt | rfl
      · have hembedded := (Paced.closed.answered hinner hlt).embed (hstands f) (hstands f') rfl
        rw [Nat.zero_add, Nat.zero_add] at hembedded
        refine hembedded.mono ?_
        rintro I m J n ⟨i, j, rfl, rfl, hnext⟩
        rw [Nat.zero_add, Nat.zero_add]
        exact .inl hnext
      · obtain ⟨n', hpath, hmid⟩ := Paced.closed.leaves hinner
        have hcaught := (hstands f').path hpath
        rw [Nat.zero_add, Nat.zero_add] at hcaught
        have hsame := hflags m n' hmid
        by_cases htest : m.state.flags.holds t = true
        · refine .moves (.back (hlast f) htest (Nat.zero_add _)) (.refl u m)
            (hcaught.tail (.back (hlast f') (hsame ▸ htest) (Nat.zero_add _))) (.inl ?_)
          exact p m n' (hagain m n' hmid htest)
        · have hfalse : m.state.flags.holds t = false := Bool.eq_false_iff.mpr htest
          refine .moves (.passed (hlast f) hfalse) (.refl u m)
            (hcaught.tail (.passed (hlast f') (hsame ▸ hfalse))) (.inr ⟨rfl, rfl, ?_⟩)
          exact hdone m n' hmid hfalse
    · rw [hlength] at hi
      exact absurd hi (Nat.lt_irrefl _)
  · rintro m j n (hinner | ⟨-, rfl, hpost⟩)
    · have hi := Paced.closed.bound hinner
      rw [hlength] at hi
      omega
    · rw [hlength]
      exact ⟨n, .refl, hpost⟩

end Sim

end Dynarec68k
