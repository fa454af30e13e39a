import Dynarec68k.Proofs.Lockstep

namespace Dynarec68k

open Host Relation Codegen Role ExceptionVector RegisterFile Machine List

variable {u : Bool} {o o' : Host.Op} {m m' n n' : Machine} {a b : RegisterAssignment} {r : Reg}
  {size : Size}

/-- Where an operation leaves a result, if it leaves one. -/
def Host.Op.writes : Host.Op → Option (Place × Size)
  | .mov _ dst size => some (dst, size)
  | .movsx _ dst _ target => some (.reg dst, target)
  | .movzx _ dst _ target => some (.reg dst, target)
  | .alu op _ dst size => if op.stores then some (dst, size) else none
  | .unary _ dst size => some (dst, size)
  | .shift _ _ dst size => some (dst, size)
  | .bit op _ dst size => if op = .test then none else some (dst, size)
  | .setTest _ dst => some (dst, .byte)
  | .lea _ _ dst => some (.reg dst, .long)
  | _ => none

namespace Host.Machine

theorem bind_eq_ok {ε α β : Type} {x : Except ε α} {f : α → Except ε β} {y : β}
    (h : x >>= f = .ok y) : ∃ v, x = .ok v ∧ f v = .ok y := by
  cases x with
  | error e => exact absurd h (by simp [bind, Except.bind])
  | ok v => exact ⟨v, rfl, h⟩

theorem perform_cases (h : m.perform o = .ok m') :
    ∃ flags, m' = m.setFlags flags ∨
      ∃ place size value, o.writes = some (place, size) ∧
        (m.setFlags flags).write place size value = .ok m' := by
  cases o with
  | mov src dst size =>
    obtain ⟨value, -, hwrite⟩ := bind_eq_ok h
    exact ⟨m.state.flags, .inr ⟨dst, size, value, rfl, hwrite⟩⟩
  | movsx src dst source target =>
    obtain ⟨value, -, hwrite⟩ := bind_eq_ok h
    exact ⟨m.state.flags, .inr ⟨.reg dst, target, source.signExtend value, rfl, hwrite⟩⟩
  | movzx src dst source target =>
    obtain ⟨value, -, hwrite⟩ := bind_eq_ok h
    exact ⟨m.state.flags, .inr ⟨.reg dst, target, value, rfl, hwrite⟩⟩
  | alu op src dst size =>
    obtain ⟨b, -, hrest⟩ := bind_eq_ok h
    obtain ⟨a, -, hwrite⟩ := bind_eq_ok hrest
    refine ⟨(op.apply size a b m.state.flags).2, ?_⟩
    by_cases hstores : op.stores = true
    · simp only [hstores, if_true] at hwrite
      exact .inr ⟨dst, size, _, if_pos hstores, hwrite⟩
    · simp only [hstores] at hwrite
      exact .inl (Except.ok.inj hwrite).symm
  | unary op dst size =>
    obtain ⟨a, -, hwrite⟩ := bind_eq_ok h
    exact ⟨_, .inr ⟨dst, size, _, rfl, hwrite⟩⟩
  | shift op count dst size =>
    rw [perform] at h
    by_cases hzero : m.count count = 0
    · rw [if_pos hzero] at h
      exact ⟨m.state.flags, .inl (Except.ok.inj h).symm⟩
    · rw [if_neg hzero] at h
      obtain ⟨a, -, hwrite⟩ := bind_eq_ok h
      exact ⟨_, .inr ⟨dst, size, _, rfl, hwrite⟩⟩
  | bit op bit dst size =>
    obtain ⟨number, -, hrest⟩ := bind_eq_ok h
    obtain ⟨a, -, hwrite⟩ := bind_eq_ok hrest
    refine ⟨{ m.state.flags with
      carry := a &&& 1 <<< (number.toNat % size.width).toUInt32 != 0 }, ?_⟩
    cases hresult : op.apply a (1 <<< (number.toNat % size.width).toUInt32) with
    | none =>
      simp only [hresult] at hwrite
      exact .inl (Except.ok.inj hwrite).symm
    | some result =>
      simp only [hresult] at hwrite
      refine .inr ⟨dst, size, result, if_neg ?_, hwrite⟩
      rintro rfl
      exact absurd hresult (by simp [BitOp.apply])
  | setTest test dst => exact ⟨m.state.flags, .inr ⟨dst, .byte, _, rfl, h⟩⟩
  | lea base disp dst =>
    refine ⟨m.state.flags, .inr ⟨.reg dst, .long, m.state.reg base + disp.toUInt32, rfl, ?_⟩⟩
    rw [← h]
    simp only [write, setReg, Alike.merge_long]
    rfl
  | _ => exact ⟨m.state.flags, .inl (Except.ok.inj h).symm⟩

theorem perform_reg (hr : r.number.toNat < 16)
    (hwrites : ∀ place size, o.writes = some (place, size) → place = .reg r)
    (h : m.perform o = .ok m') :
    m'.file = m.file ∧ ∀ r', r' ≠ r → m'.state.reg r' = m.state.reg r' := by
  obtain ⟨flags, rfl | ⟨place, size, value, hplace, hwrite⟩⟩ := perform_cases h
  · exact ⟨rfl, fun _ _ => rfl⟩
  · rw [hwrites place size hplace, write] at hwrite
    rw [← Except.ok.inj hwrite]
    refine ⟨rfl, fun r' hne => ?_⟩
    simp only [setReg, setFlags]
    rw [State.reg_setReg _ hr, if_neg hne]
    rfl

end Host.Machine

/-- Operations one after the other. -/
def Host.Machine.performAll (m : Machine) : List Host.Op → Except FaultReason Machine
  | [] => .ok m
  | o :: rest => do
    let m ← m.perform o
    m.performAll rest

namespace Sim

variable {Pre Post : Machine → Machine → Prop}

theorem path_of_performAll {f : Fragment} {ops : List Host.Op} {k : Nat}
    (hstands : Fragment.StandsAt (ops.map .op) f k) (hdata : ∀ o ∈ ops, o.isData = true)
    (h : m.performAll ops = .ok m') : ReflTransGen f.Moves (k, m) (k + ops.length, m') := by
  induction ops generalizing m k with
  | nil =>
    rw [← Except.ok.inj h]
    exact .refl
  | cons o rest ih =>
    obtain ⟨m₁, hfirst, hrest⟩ := bind_eq_ok h
    have hitem : f[k]? = some (.op o) := hstands.getElem? (i := 0) rfl
    have htail : Fragment.StandsAt (rest.map .op) f (k + 1) := by
      intro i hi
      have hnext := hstands (i + 1) (by simpa using hi)
      rwa [show k + (i + 1) = k + 1 + i by omega] at hnext
    refine .head (.data hitem (hdata o mem_cons_self) hfirst) ?_
    have hpath := ih htail (fun o' ho' => hdata o' (mem_cons_of_mem _ ho')) hrest
    rwa [show k + 1 + rest.length = k + (o :: rest).length by rw [length_cons]; omega] at hpath

/-- Two straight lines that do not go operation by operation. The right host waits until the left
one is through. -/
theorem straight {ops ops' : List Host.Op} (hdata : ∀ o ∈ ops, o.isData = true)
    (hdata' : ∀ o ∈ ops', o.isData = true)
    (hkept : ∀ o ∈ ops, ∀ m m' : Machine, m.Ready → m.perform o = .ok m' →
      Confined u m m')
    (h : ∀ m n, Pre m n → m.Ready ∧
      ∃ m' n', m.performAll ops = .ok m' ∧ n.performAll ops' = .ok n' ∧ Post m' n') :
    Sim a b u Pre (ops.map .op) (ops'.map .op) Post := by
  intro m n hpre
  have hlength (ops : List Host.Op) : (ops.map Item.op).length = ops.length := length_map _
  refine ⟨fun i m j n => i ≤ ops.length ∧ j = 0 ∧ m.Ready ∧ ∃ m' n',
    m.performAll (ops.drop i) = .ok m' ∧ n.performAll ops' = .ok n' ∧ Post m' n', ⟨?_, ?_, ?_⟩,
    Nat.zero_le _, rfl, h m n hpre⟩
  · rintro i m j n ⟨hi, -⟩
    rwa [hlength]
  · rintro i m j n ⟨-, rfl, hready, m', n', hm, hn, hpost⟩ hi
    rw [hlength] at hi
    rw [drop_eq_getElem_cons hi] at hm
    obtain ⟨m₁, hfirst, hrest⟩ := bind_eq_ok hm
    have hitem : (ops.map Item.op)[i]? = some (.op ops[i]) := by
      rw [getElem?_map, getElem?_eq_getElem hi]
      rfl
    have hconfined := hkept _ (getElem_mem hi) m m₁ hready hfirst
    exact .moves (.data hitem (hdata _ (getElem_mem hi)) hfirst) hconfined .refl
      ⟨hi, rfl, hconfined.ready hready, m', n', hrest, hn, hpost⟩
  · rintro m j n ⟨-, rfl, -, m', n', hm, hn, hpost⟩
    rw [hlength, drop_length] at hm
    rw [Except.ok.inj hm]
    have hpath := path_of_performAll (Fragment.standsAt_self _) hdata' hn
    rw [Nat.zero_add, ← hlength ops'] at hpath
    exact ⟨n', hpath, hpost⟩

end Sim

namespace RegisterAssignment

variable (a)

/-- The registers of the file that have a host register are put there. -/
def load (assignment : RegisterAssignment) (file : RegisterFile) (state : State) : State :=
  assignment.mapped.foldl (fun state (guest, host) => state.setReg host (file.general guest)) state

theorem spill_congr (hfile : m'.file = m.file)
    (hregs : ∀ r : Reg, 7 ≤ r.number.toNat → r.number.toNat < 15 → m'.state.reg r = m.state.reg r) :
    a.spill m' = a.spill m := by
  apply ext_byteAt
  intro k _
  rw [a.byteAt_spill, a.byteAt_spill]
  cases hlookup : a.mapped.lookup (k / 4) with
  | none => rw [hfile]
  | some host =>
    obtain ⟨-, hlow, hhigh, -⟩ := lookup_mapped hlookup
    simp only [hregs host hlow hhigh]

theorem spill_inFile (m : Machine) : RegisterAssignment.spill .inFile m = m.file :=
  rfl

theorem spill_spill (m : Machine) :
    a.spill { m with file := a.spill m } = a.spill m := by
  apply ext_byteAt
  intro k _
  rw [a.byteAt_spill, a.byteAt_spill]
  cases a.mapped.lookup (k / 4) with
  | none => rfl
  | some host => rfl

theorem foldl_setReg_of_not_mem (list : List (Nat × Reg)) (value : Nat → UInt32) (state : State)
    (hbound : ∀ e ∈ list, e.2.number.toNat < 16) (hr : ∀ e ∈ list, e.2 ≠ r) :
    (list.foldl (fun state (e : Nat × Reg) => state.setReg e.2 (value e.1)) state).reg r =
      state.reg r := by
  induction list generalizing state with
  | nil => rfl
  | cons e rest ih =>
    rw [foldl_cons, ih _ (fun e' he' => hbound e' (mem_cons_of_mem _ he'))
      (fun e' he' => hr e' (mem_cons_of_mem _ he')),
      State.reg_setReg _ (hbound e mem_cons_self), if_neg (hr e mem_cons_self).symm]

theorem foldl_setReg_of_mem (list : List (Nat × Reg)) (value : Nat → UInt32) (state : State)
    (hbound : ∀ e ∈ list, e.2.number.toNat < 16) (hnodup : (list.map Prod.snd).Nodup) {guest : Nat}
    {host : Reg} (hmem : (guest, host) ∈ list) :
    (list.foldl (fun state (e : Nat × Reg) => state.setReg e.2 (value e.1)) state).reg host =
      value guest := by
  induction list generalizing state with
  | nil => exact absurd hmem not_mem_nil
  | cons e rest ih =>
    rw [map_cons, nodup_cons] at hnodup
    have hrest : ∀ e' ∈ rest, e'.2.number.toNat < 16 :=
      fun e' he' => hbound e' (mem_cons_of_mem _ he')
    rcases mem_cons.mp hmem with rfl | hlater
    · have hnot : ∀ e' ∈ rest, e'.2 ≠ host := by
        intro e' he' heq
        exact hnodup.1 (mem_map.mpr ⟨e', he', heq⟩)
      rw [foldl_cons, foldl_setReg_of_not_mem rest value _ hrest hnot,
        State.reg_setReg _ (hbound _ mem_cons_self), if_pos rfl]
    · exact ih _ hrest hnodup.2 hlater

theorem mapped_hosts : (a.mapped.map Prod.snd).Nodup ∧
    ∀ e ∈ a.mapped, 7 ≤ e.2.number.toNat ∧ e.2.number.toNat < 15 := by
  cases a <;> decide

theorem load_reg (file : RegisterFile) (state : State)
    (hr : r.number.toNat < 7 ∨ r.number.toNat = 15) : (a.load file state).reg r = state.reg r := by
  have hhosts := a.mapped_hosts.2
  refine foldl_setReg_of_not_mem _ file.general state
    (fun e he => by have := hhosts e he; omega) ?_
  rintro e he rfl
  have := hhosts e he
  omega

theorem load_flags (file : RegisterFile) (state : State) :
    (a.load file state).flags = state.flags ∧ (a.load file state).stack = state.stack := by
  unfold load
  induction a.mapped generalizing state with
  | nil => exact ⟨rfl, rfl⟩
  | cons e rest ih => exact ih _

theorem load_keeps (m : Machine) :
    m.Keeps { m with state := a.load m.file m.state } where
  scratch s := a.load_reg _ _ s.reg_number.2.2.1
  limit := a.load_reg _ _ (by decide)
  context := a.load_reg _ _ (by decide)
  flags := (a.load_flags _ _).1
  stack := (a.load_flags _ _).2

theorem spill_load (file : RegisterFile) (hfile : m.file = file)
    {state : State}
    (hregs : ∀ r : Reg, 7 ≤ r.number.toNat → r.number.toNat < 15 →
      m.state.reg r = (a.load file state).reg r) : a.spill m = file := by
  have hhosts := a.mapped_hosts
  apply ext_byteAt
  intro k hk
  rw [a.byteAt_spill]
  cases hlookup : a.mapped.lookup (k / 4) with
  | none => rw [hfile]
  | some host =>
    obtain ⟨hguest, hlow, hhigh, -⟩ := lookup_mapped hlookup
    have hmem : (k / 4, host) ∈ a.mapped := by
      obtain ⟨l, l', heq, -⟩ := lookup_eq_some_iff.mp hlookup
      rw [heq]
      exact mem_append_right _ mem_cons_self
    have hloaded : (a.load file state).reg host = file.general (k / 4) :=
      foldl_setReg_of_mem _ file.general state
        (fun e he => by have := hhosts.2 e he; omega) hhosts.1 hmem
    simp only [hregs host hlow hhigh, hloaded]
    rw [file.byteOf_general hguest (Nat.mod_lt _ (by decide)), Nat.div_add_mod]

def spillOps : List Host.Op :=
  a.mapped.map fun e =>
    .mov (.reg e.2) (.slot context (Int32.ofNat (generalOffset e.1))) .long

def reloadOps : List Host.Op :=
  a.mapped.map fun e =>
    .mov (.slot context (Int32.ofNat (generalOffset e.1))) (.reg e.2) .long

theorem spillMapped_eq (config : Config) (a : RegisterAssignment) :
    spillMapped (config.assign a) = a.spillOps.map .op := by
  rw [spillOps, List.map_map]
  exact map_eq_flatMap.symm

theorem reloadMapped_eq (config : Config) (a : RegisterAssignment) :
    reloadMapped (config.assign a) = a.reloadOps.map .op := by
  rw [reloadOps, List.map_map]
  exact map_eq_flatMap.symm

theorem spillOps_isData : ∀ o ∈ a.spillOps, o.isData = true := by
  cases a <;> decide

theorem reloadOps_isData : ∀ o ∈ a.reloadOps, o.isData = true := by
  cases a <;> decide

theorem performAll_spill (ready : m.Ready) :
    m.performAll a.spillOps = .ok { m with file := a.spill m } := by
  have hall : ∀ list : List (Nat × Reg), (∀ e ∈ list, e.1 < 16) → ∀ file : RegisterFile,
      performAll { m with file := file } (list.map fun e =>
          .mov (.reg e.2) (.slot context (Int32.ofNat (generalOffset e.1)))
            .long) =
        .ok { m with
          file := list.foldl
            (fun file (guest, host) => file.setGeneral guest (m.state.reg host)) file } := by
    intro list
    induction list with
    | nil => exact fun _ _ => rfl
    | cons e rest ih =>
      intro hbound file
      have hguest := hbound e mem_cons_self
      have hbytes := (generalOffset_bound ⟨e.1, hguest⟩ .long).1
      have hready : Ready { m with file := file } := ⟨ready.context, ready.stack⟩
      have hstore : perform { m with file := file }
          (.mov (.reg e.2) (.slot context (Int32.ofNat (generalOffset e.1)))
            .long) =
          .ok { m with file := file.setGeneral e.1 (m.state.reg e.2) } := by
        simp only [Machine.perform, Machine.read, and_mask_long, bind, Except.bind]
        rw [Machine.write_slot hready hbytes, setGeneral_eq_put _ _ hguest]
      simp only [map_cons, performAll, hstore, bind, Except.bind]
      exact ih (fun e' he' => hbound e' (mem_cons_of_mem _ he')) _
  exact hall a.mapped a.mapped_bound m.file

theorem performAll_reload (ready : m.Ready) :
    m.performAll a.reloadOps = .ok { m with state := a.load m.file m.state } := by
  have hall : ∀ list : List (Nat × Reg),
      (∀ e ∈ list, e.1 < 16 ∧ 7 ≤ e.2.number.toNat ∧ e.2.number.toNat < 15) →
      ∀ state : State, Ready { m with state := state } →
      performAll { m with state := state } (list.map fun e =>
          .mov (.slot context (Int32.ofNat (generalOffset e.1))) (.reg e.2)
            .long) =
        .ok { m with
          state := list.foldl
            (fun state (guest, host) => state.setReg host (m.file.general guest)) state } := by
    intro list
    induction list with
    | nil => exact fun _ _ _ => rfl
    | cons e rest ih =>
      intro hbound state hready
      obtain ⟨hguest, hlow, hhigh⟩ := hbound e mem_cons_self
      have hbytes := (generalOffset_bound ⟨e.1, hguest⟩ .long).1
      have hload : perform { m with state := state }
          (.mov (.slot context (Int32.ofNat (generalOffset e.1))) (.reg e.2)
            .long) =
          .ok { m with state := state.setReg e.2 (m.file.general e.1) } := by
        simp only [perform, read_slot hready hbytes, bind, Except.bind,
          write, setReg, Alike.merge_long, m.file.general_eq_part hguest]
      simp only [map_cons, performAll, hload, bind, Except.bind]
      refine ih (fun e' he' => hbound e' (mem_cons_of_mem _ he')) _ ⟨?_, hready.stack⟩
      simp only
      rw [State.reg_setReg _ (by omega), if_neg]
      · exact hready.context
      · intro heq
        rw [← heq] at hlow
        exact absurd hlow (by decide)
  exact hall a.mapped (fun e he => ⟨a.mapped_bound e he, a.mapped_hosts.2 e he⟩) m.state ready

end RegisterAssignment

namespace RegisterAssignment

theorem spill_kept (a : RegisterAssignment) (m : Machine) {k : Nat} (hk : Kept u k) :
    (a.spill m).byteAt k = m.file.byteAt k := by
  rw [a.byteAt_spill, a.lookup_mapped_field hk.low]

end RegisterAssignment

theorem RegisterFile.put_kept (file : RegisterFile) {offset : Nat} (value : UInt32)
    (hbound : offset + size.bytes ≤ registerFileSize)
    (hoffset : offset + size.bytes ≤ 64 ∨
      (u = true → 68 ≤ offset) ∧ offset + size.bytes ≤ statusOffset)
    {k : Nat} (hk : Kept u k) :
    (file.put offset size value).byteAt k = file.byteAt k := by
  rw [byteAt_put _ _ hbound, if_neg]
  have hstatus : statusOffset = 73 := rfl
  rcases hk with ⟨rfl, hlow, hhigh⟩ | rfl
  · simp only [true_implies] at hoffset
    omega
  · omega

namespace RegisterAssignment

theorem spillOps_confined (a : RegisterAssignment) :
    ∀ o ∈ a.spillOps, ∀ m m' : Machine, m.Ready → m.perform o = .ok m' →
      Confined u m m' := by
  intro o ho m m' ready h
  obtain ⟨e, he, rfl⟩ := mem_map.mp ho
  have hguest := a.mapped_bound e he
  have hbytes := (generalOffset_bound ⟨e.1, hguest⟩ .long).1
  simp only [Machine.perform, Machine.read, bind, Except.bind] at h
  rw [Machine.write_slot ready hbytes] at h
  rw [← Except.ok.inj h]
  refine ⟨fun k hk => put_kept _ _ hbytes (.inl ?_) hk, rfl,
    fun _ => ⟨ready.context, ready.stack⟩⟩
  rw [show generalOffset e.1 = 4 * e.1 from rfl, show Size.long.bytes = 4 from rfl]
  omega

theorem reloadOps_confined (a : RegisterAssignment) :
    ∀ o ∈ a.reloadOps, ∀ m m' : Machine, m.Ready → m.perform o = .ok m' →
      Confined u m m' := by
  intro o ho m m' ready h
  obtain ⟨e, he, rfl⟩ := mem_map.mp ho
  obtain ⟨value, -, hwrite⟩ := bind_eq_ok h
  have hhost := a.mapped_hosts.2 e he
  rw [write] at hwrite
  rw [← Except.ok.inj hwrite]
  have hother {r : Reg} (hr : r.number.toNat < 7) :
      (m.setReg e.2 .long value).state.reg r = m.state.reg r := by
    simp only [setReg]
    rw [State.reg_setReg _ (by omega), if_neg]
    rintro rfl
    omega
  exact ⟨fun _ _ => rfl, hother (by decide),
    fun _ => ⟨(hother (by decide)).trans ready.context, ready.stack⟩⟩

end RegisterAssignment

theorem Spot.write_confined (a : RegisterAssignment) (ready : m.Ready) {spot : Spot}
    {value : UInt32} (hspot : spot.Writable u size) (h : m.write (spot.place a) size value = .ok m') :
    Confined u m m' := by
  have hsize := size.bytes_le
  cases spot with
  | guest r =>
    obtain ⟨m'', hm'', hkeeps, hspill⟩ := write_guest a ready r size value
    obtain rfl : m'' = m' := Except.ok.inj (hm''.symm.trans h)
    have hoffset : generalOffset r = 4 * r := rfl
    refine ⟨fun k hk => ?_, hkeeps.limit, hkeeps.ready⟩
    rw [← a.spill_kept m'' hk, hspill, put_kept _ _
      (generalOffset_bound r size).1 (.inl (by omega)) hk, a.spill_kept m hk]
  | scratch s =>
    obtain ⟨hnumber, hcontext, -, hlimit⟩ := s.reg_number
    rw [← Except.ok.inj h]
    have hother {r : Reg} (hr : s.reg ≠ r) :
        (m.setReg s.reg size value).state.reg r = m.state.reg r := by
      simp only [setReg]
      rw [State.reg_setReg _ hnumber, if_neg hr.symm]
    exact ⟨fun _ _ => rfl, hother hlimit,
      fun _ => ⟨(hother hcontext).trans ready.context, ready.stack⟩⟩
  | field offset =>
    have hread : (Spot.field offset).Readable .tight size := hspot.readable
    obtain ⟨⟨hlow, hhigh⟩, huser⟩ := hspot
    rw [Spot.place, write_slot ready hread.2] at h
    rw [← Except.ok.inj h]
    exact ⟨fun k hk => put_kept _ _ hread.2 (.inr ⟨huser, hhigh⟩) hk, rfl,
      fun _ => ⟨ready.context, ready.stack⟩⟩
  | const value => exact absurd hspot id

namespace Matching

variable {g h : Grade}

theorem isData (hop : Matching a b u g o o' h) : o.isData = true ∧ o'.isData = true := by
  cases hop <;> exact ⟨rfl, rfl⟩

theorem writes (hop : Matching a b u g o o' h) {place : Place} {size : Size}
    (hwrites : o.writes = some (place, size)) :
    ∃ spot : Spot, place = spot.place a ∧ spot.Writable u size := by
  cases hop with
  | mov hs hd =>
    cases hwrites
    exact ⟨_, rfl, hd⟩
  | @movsx _ d _ _ hs =>
    cases hwrites
    exact ⟨.scratch d, rfl, trivial⟩
  | @movzx _ d _ _ hs =>
    cases hwrites
    exact ⟨.scratch d, rfl, trivial⟩
  | @alu op _ d _ hs hd hw =>
    by_cases hstores : op.stores = true
    · rw [Host.Op.writes, if_pos hstores] at hwrites
      cases hwrites
      exact ⟨d, rfl, hw hstores⟩
    · rw [Host.Op.writes, if_neg hstores] at hwrites
      cases hwrites
  | unary hd hw =>
    cases hwrites
    exact ⟨_, rfl, hw⟩
  | shiftBy hd hw =>
    cases hwrites
    exact ⟨_, rfl, hw⟩
  | shiftReg hk hd hw =>
    cases hwrites
    exact ⟨_, rfl, hw⟩
  | @bit op _ d _ hs hd hw =>
    by_cases htest : op = .test
    · rw [Host.Op.writes, if_pos htest] at hwrites
      cases hwrites
    · rw [Host.Op.writes, if_neg htest] at hwrites
      cases hwrites
      exact ⟨d, rfl, hw htest⟩
  | setTest hd =>
    cases hwrites
    exact ⟨_, rfl, hd⟩
  | @lea _ d _ hs =>
    cases hwrites
    exact ⟨.scratch d, rfl, trivial⟩

theorem confined (hop : Matching a b u g o o' h) (ready : m.Ready) (hperform : m.perform o = .ok m') :
    Confined u m m' := by
  obtain ⟨flags, rfl | ⟨place, size, value, hwrites, hwrite⟩⟩ := perform_cases hperform
  · exact ⟨fun _ _ => rfl, rfl, fun _ => ⟨ready.context, ready.stack⟩⟩
  · obtain ⟨spot, rfl, hspot⟩ := hop.writes hwrites
    have hready : (m.setFlags flags).Ready := ⟨ready.context, ready.stack⟩
    have hwritten := Spot.write_confined a hready hspot hwrite
    exact ⟨hwritten.kept, hwritten.limit, fun _ => hwritten.ready hready⟩

end Matching

/-- Hosts that agree, and in user mode have left alone what user mode keeps of a register file. -/
structure Within (a b : RegisterAssignment) (file : RegisterFile) (u : Bool) (g : Grade)
    (m n : Machine) : Prop where
  alike : Alike g a b m n
  kept : u = true → ∀ k, Kept true k → m.file.byteAt k = file.byteAt k

namespace Within

variable {file : RegisterFile} {g h : Grade}

theorem not_stop (m n : Machine) : ¬Within a b file u .stop m n := by
  intro hwithin
  exact hwithin.alike.reached rfl

theorem moved (hwithin : Within a b file u g m n) (halike : Alike h a b m' n')
    (hkept : Confined u m m') : Within a b file u h m' n' where
  alike := halike
  kept := by
    rintro rfl k hk
    rw [hkept.kept k hk, hwithin.kept rfl k hk]

theorem perform (hwithin : Within a b file u g m n) (hop : Matching a b u g o o' h) :
    ∃ m' n', m.perform o = .ok m' ∧ n.perform o' = .ok n' ∧ Confined u m m' ∧
      Within a b file u h m' n' := by
  obtain ⟨m', n', hm, hn, halike⟩ := hwithin.alike.perform hop
  have hkept := hop.confined hwithin.alike.left hm
  exact ⟨m', n', hm, hn, hkept, hwithin.moved halike hkept⟩

theorem returned (hwithin : Within a b file u g m n) (hreturned : Returned a b u h m n m' n') :
    Within a b file u h m' n' where
  alike := hreturned.alike
  kept := by
    intro hu k hk
    rw [hreturned.kept hu k hk, hwithin.kept hu k hk]

end Within

namespace Sim

variable {file : RegisterFile} {g h : Grade}

theorem op (hop : Matching a b u g o o' h) :
    Sim a b u (Within a b file u g) [.op o] [.op o'] (Within a b file u h) := by
  refine data hop.isData.1 hop.isData.2 ?_
  intro m n hwithin
  exact hwithin.perform hop

theorem asking {item : Item} (hask : Asks u item g h) :
    Sim a b u (Within a b file u g) [item] [item] (Within a b file u h) :=
  ask hask (fun _ _ hwithin => hwithin.alike) fun _ _ _ _ hwithin hreturned =>
    hwithin.returned hreturned

/-- In user mode the check for supervisor mode is never passed. -/
theorem requireSupervisor (inst : Instruction) (hfile : file.supervisor = false) :
    Sim a b true (Within a b file true .loose) (requireSupervisor inst)
      (requireSupervisor inst) fun _ _ => False := by
  have hstatus : (Spot.field statusOffset).Readable .loose .byte := by
    constructor <;> decide
  have htest : Matching a b true .loose (.bit .test (.imm 5) statusPlace .byte)
      (.bit .test (.imm 5) statusPlace .byte) .loose :=
    .bit (s := .const 5) (d := .field statusOffset) trivial hstatus
      fun hne => absurd rfl hne
  have hbit : Sim a b true (Within a b file true .loose)
      (bit .test (.imm 5) statusPlace .byte)
      (bit .test (.imm 5) statusPlace .byte) fun m n =>
        Within a b file true .loose m n ∧ m.state.flags.holds .below = false := by
    refine data rfl rfl ?_
    intro m n hwithin
    obtain ⟨m', n', hm, hn, hkept, hwithin'⟩ := hwithin.perform htest
    refine ⟨m', n', hm, hn, hkept, hwithin', ?_⟩
    have hread : m.read statusPlace .byte = .ok file.status.toUInt32 := by
      have hslot : m.read statusPlace .byte =
          .ok (m.file.part statusOffset .byte) :=
        read_slot hwithin.alike.left (by decide)
      rw [hslot]
      exact congrArg (fun byte : UInt8 => Except.ok byte.toUInt32) (hwithin.kept rfl _ (.inr rfl))
    have hnumber : m.read (.imm 5) .long = .ok (5 &&& Size.long.mask) := rfl
    simp only [perform, hread, hnumber, bind, Except.bind, BitOp.apply, pure,
      Except.pure] at hm
    rw [← Except.ok.inj hm]
    have hclear : (file.status &&& 0x20) = 0 := by
      simpa [supervisor] using hfile
    have hmask : (1 : UInt32) <<< (((5 : UInt32) &&& Size.long.mask).toNat %
        Size.byte.width).toUInt32 = (0x20 : UInt8).toUInt32 := by decide
    have hcarry : (file.status.toUInt32 &&& (0x20 : UInt8).toUInt32 != 0) = false := by
      rw [← UInt8.toUInt32_and, hclear]
      rfl
    rw [hmask]
    exact hcarry
  refine hbit.append rfl (skipIf ?_ ?_ ?_)
  · rintro m n ⟨hwithin, -⟩
    exact hwithin.alike.flags
  · rintro m n ⟨-, hfalse⟩ htrue
    rw [hfalse] at htrue
    exact absurd htrue (by decide)
  · have hraise : Sim a b true (Within a b file true .loose)
        (raise privilege inst.address)
        (raise privilege inst.address) (Within a b file true .stop) := by
      have hfirst : Matching a b true .loose (.mov (.imm inst.address) (.reg scratch1) .long)
          (.mov (.imm inst.address) (.reg scratch1) .long) .tight :=
        .mov (s := .const inst.address) (d := .scratch .first) trivial trivial
      have hsecond : Matching a b true .tight
          (.mov (.imm privilege.toUInt32) (.reg scratch2) .long)
          (.mov (.imm privilege.toUInt32) (.reg scratch2) .long) .tight :=
        .mov (s := .const privilege.toUInt32) (d := .scratch .second) trivial trivial
      exact ((op hfirst).append rfl (op hsecond)).append rfl
        (asking (.leave rfl (fun _ => rfl) fun _ => rfl))
    exact hraise.mono (fun _ _ hwithin => hwithin.1.1) fun m n hnever =>
      Within.not_stop m n hnever

end Sim

end Dynarec68k
