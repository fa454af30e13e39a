import Dynarec68k.Proofs.CurrentCode
import Dynarec68k.Proofs.DueChecks

namespace Dynarec68k

open Host Relation

variable {config : Config} {map : MemoryMap} {P : Pair → Prop}

/-- Nothing keeps a processor from going on. -/
structure Cpu.Clear (cpu : Cpu) : Prop where
  early : ¬(cpu.target ≤ cpu.cycle ∨ cpu.returnRequested = true)
  untraced : ¬cpu.tracePending = true
  unlatched : cpu.latched = none

namespace Session

variable {s t : Session} {n : Nat} {opened checked : UInt32} {p : Pair} {x : UInt32}

theorem Calls.returns {gate : Gate} {value : UInt32} {back : CodePtr}
    (h : s.Calls gate value back t) (hgate : gate.returns = true)
    (hstack : s.machine.state.stack = [])
    (houtcome : (t.served gate.service).outcome = .proceed)
    (hroom : (t.served gate.service).cpu.store.code.ops.size < 2 ^ 31)
    (hgates : ∀ (i : Nat) op, Gate.code[i]? = some op →
      (t.served gate.service).cpu.store.code.ops[i]? = some op) :
    ReflTransGen Advances s (t.back gate.service back) := by
  have hserved : t.step = .next ((t.after gate.service).goto (t.site + 1)) :=
    h.step.trans (serve_proceed houtcome)
  have hreturn : ((t.after gate.service).goto (t.site + 1)).step =
      .next (t.back gate.service back) := by
    refine step_return (s := (t.after gate.service).goto (t.site + 1)) hroom hgates hgate
      (congrArg (· + 1) h.site) ?_
    exact ((Cpu.loadHost_stack _ _).trans (answer_stack _)).trans (h.stack.trans (by rw [hstack]))
  exact (h.path.tail hserved).tail hreturn

/-- Where nothing is in the way, control comes through the check of the cycle limit. What it has
seen there may be latched. -/
theorem passes_boundary (hroom : s.cpu.store.code.ops.size < 2 ^ 31)
    (hgates : ∀ (i : Nat) op, Gate.code[i]? = some op → s.cpu.store.code.ops[i]? = some op)
    (hready : s.machine.Ready) (hsite : s.site = n.toUInt32)
    (hhead : s.cpu.store.code.HeadAt n .boundary opened checked none)
    (hclear : s.asked.Clear) :
    ∃ u, ReflTransGen Advances s u ∧ u.site = (n + 4).toUInt32 ∧
      u.cpu.store = s.cpu.store ∧ (u.asked = s.asked ∨ u.asked = s.asked.latch) := by
  by_cases hearly : s.asked.cycle < s.asked.limit
  · have hidles := at_boundary_early hroom hsite hhead hearly
    exact ⟨_, hidles.path, rfl, congrArg Cpu.store hidles.cpu, .inl hidles.asked⟩
  · obtain ⟨t, hcalls⟩ := at_boundary_due hroom hsite hgates hhead (UInt32.not_lt.mp hearly)
    have hquiet : s.asked.synchronize checked = (.proceed, s.asked.latch) :=
      Cpu.synchronize_quiet hclear.early hclear.untraced hclear.unlatched
    have hserved : t.served .synchronize = .ofOutcome (.proceed, s.asked.latch) := by
      rw [← hquiet, ← hcalls.asked, ← hcalls.first]
      rfl
    have hasked : (t.back .synchronize (n + 4).toUInt32).asked = s.asked.latch := by
      have hback : (t.back .synchronize (n + 4).toUInt32).asked = (t.served .synchronize).cpu :=
        Cpu.storeHost_loadHost _ _
      rw [hback, hserved]
      rfl
    have hstore : (t.served .synchronize).cpu.store = s.cpu.store := by
      rw [hserved]
      rfl
    refine ⟨_, hcalls.returns rfl hready.stack ?_ ?_ ?_, rfl, hstore, .inr hasked⟩
    · exact congrArg Cpu.Served.outcome hserved
    · exact hstore ▸ hroom
    · exact hstore ▸ hgates

theorem ends_missing {view : GuestView} (hsole : Sole config map view P s.cpu.store) (hp : P p)
    (hunit : p.unit = .missing x) (hsite : s.site = (p.left + 4).toUInt32) :
    s.Ends (.error (.outOfBounds x), { s.asked with pc := x }) := by
  have hlinked := (matching config _ _ map).linked hsole
  have hroom := hlinked.roomLeft
  have hbody := (hlinked.pairs p hp).bodyLeft
  rw [hunit] at hbody
  have hload := step_data hroom hsite (hbody 0 _ rfl) rfl (Coupling.perform_load s.machine x)
  have hidles := Idles.load hload
  refine ⟨_, hidles.path, ?_⟩
  have hserve := step_service
    (s := s.moved (s.machine.setReg Role.scratch1 .long x) (p.left + 4 + 1).toUInt32) hroom rfl
    (hbody 1 _ rfl)
  have hfirst := Coupling.setReg_first s.machine x
  have hserved : (s.moved (s.machine.setReg Role.scratch1 .long x)
      (p.left + 4 + 1).toUInt32).served .outOfBounds =
        ⟨.fail (.outOfBounds x), { s.asked with pc := x }, none⟩ := by
    rw [served, hidles.asked, Cpu.serve]
    exact congrArg (fun first => (⟨.fail (.outOfBounds first), { s.asked with pc := first }, none⟩ :
      Cpu.Served)) hfirst
  rw [hserve, serve_fail (congrArg Cpu.Served.outcome hserved), hserved]

theorem fails_boundary (hsole : Sole config map s.cpu.view P s.cpu.store) (hp : P p)
    (hunit : p.unit = .missing x) (hsite : s.site = p.left.toUInt32) (hready : s.machine.Ready)
    (hhead : s.cpu.store.code.HeadAt p.left .boundary opened checked none)
    (hclear : s.asked.Clear) :
    ∃ last, s.Ends (.error (.outOfBounds x), last) ∧
      (last.store.endless = s.cpu.store.endless ∧ last.overfull = s.cpu.overfull) ∧
      last.registers = s.asked.registers ∧ last.memory = s.asked.memory ∧
      last.cycle = s.asked.cycle := by
  have hlinked := (matching config _ _ map).linked hsole
  obtain ⟨u, hpath, hsite', hstore, hasked⟩ := passes_boundary hlinked.roomLeft hlinked.gatesLeft
    hready hsite hhead hclear
  rw [← hstore] at hsole
  obtain ⟨last, hpath', hdone⟩ := ends_missing hsole hp hunit hsite'
  refine ⟨_, ⟨last, hpath.trans hpath', hdone⟩, ?_⟩
  rcases hasked with hasked | hasked <;> rw [hasked] <;> exact ⟨⟨rfl, rfl⟩, rfl, rfl, rfl⟩

theorem fails_missing (hsole : Sole config map s.cpu.view P s.cpu.store)
    (htidy : Tidy map P s.cpu.store) (hp : P p) (hunit : p.unit = .missing x)
    (hlookup : s.cpu.store.lookup x = some p.left.toUInt32)
    (hkind : s.cpu.store.entryKind p.left.toUInt32 ≠ .redirected)
    (hgone : s.asked.breakpoints[x]? = none) (hsite : s.site = p.left.toUInt32)
    (hready : s.machine.Ready)
    (hclear : s.asked.Clear) :
    ∃ last, s.Ends (.error (.outOfBounds x), last) ∧
      (last.store.endless = s.cpu.store.endless ∧ last.overfull = s.cpu.overfull) ∧
      last.registers = s.asked.registers ∧ last.memory = s.asked.memory ∧
      last.cycle = s.asked.cycle := by
  have haddress : p.unit.address = x := by
    rw [hunit]
    rfl
  obtain ⟨-, kind, hhead⟩ := htidy.current hsole hp hlookup
  have hwithin := hsole.within hp
  rw [CodeStore.entryKind_eq (by omega) hhead.second] at hkind
  rw [haddress] at hhead
  cases kind with
  | redirected => exact absurd rfl hkind
  | boundary => exact fails_boundary hsole hp hunit hsite hready hhead hclear
  | breakpoint =>
    obtain ⟨q, t, u, hq, heq, hidles, hstep, hsite', hready', hcpu, hasked, hsole', hhead'⟩ :=
      restores hsole hsite hhead hgone hlookup
    obtain rfl := hsole.left_inj hp hq heq
    obtain ⟨last, ⟨end', hpath, hdone⟩, hstore, hlast⟩ := fails_boundary hsole' hp hunit hsite'
      hready' hhead' (by rw [hasked]; exact ⟨hclear.early, hclear.untraced, hclear.unlatched⟩)
    have hpatched := CodeStore.restoreBoundary_spec hwithin x
    have hfull : u.cpu.overfull = s.cpu.overfull := by
      rw [hcpu, hasked, Cpu.overfull, Cpu.overfull]
      exact congrArg (fun size => _ && decide (nativeCapacity < size)) hpatched.code.size
    have hendless : u.cpu.store.endless = s.cpu.store.endless := by
      rw [hcpu, hasked]
      exact hpatched.endless
    rw [hfull, hendless] at hstore
    rw [hasked] at hlast
    exact ⟨last, ⟨end', (hidles.path.tail hstep).trans hpath, hdone⟩, hstore, hlast⟩

end Session

theorem Sole.locate_missing {view : GuestView} {s s' : CodeStore} {x : UInt32} {n : CodePtr}
    (h : Sole config map view P s) (heven : map.KeepsEven) (htidy : Tidy map P s) (hx : x &&& 1 = 0)
    (hmissing : view.memory.isExecutable x = false)
    (hcode : ∀ n, s.lookup (map.canonical x) = some n →
      s.entryKind n ≠ .redirected ∧ (n, map.canonical x) ∉ s.entries.origins)
    (hlocate : s.locate view x = (n, s')) (hfits : s'.Fits) :
    ∃ (P' : Pair → Prop) (p : Pair), Sole config map view P' s' ∧ Tidy map P' s' ∧ P' p ∧
      p.unit = .missing (map.canonical x) ∧ s'.lookup (map.canonical x) = some p.left.toUInt32 ∧
      s'.entryKind p.left.toUInt32 ≠ .redirected ∧ n = p.left.toUInt32 := by
  have hcanonical : view.canonical x = map.canonical x := h.fixed.canonical x
  have hhome := heven.isHome h.fixed.mapSound hx
  cases hlookup : s.lookup (map.canonical x) with
  | some m =>
    -- the entry that is there is not that of an instruction
    obtain ⟨rfl, rfl⟩ : m = n ∧ s = s' := by
      rw [CodeStore.locate, hcanonical, hlookup] at hlocate
      exact Prod.mk.inj hlocate
    obtain ⟨p, hp, rfl, -, -⟩ := h.lookup hlookup
    have haddress := (htidy.current h hp hlookup).1
    obtain ⟨hkind, horigin⟩ := hcode _ hlookup
    refine ⟨P, p, h, htidy, hp, ?_, hlookup, hkind, rfl⟩
    cases hunit : p.unit with
    | instruction inst =>
      have hlisted := h.listed hp hunit
      rw [hunit] at haddress
      exact absurd (haddress ▸ hlisted) horigin
    | missing address =>
      rw [hunit] at haddress
      rw [haddress]
      rfl
  | none =>
    have hlocated : (s.locate view x).2.Fits := by
      rw [hlocate]
      exact hfits
    obtain ⟨pairs, pairs', q, rfl, hsole', hgrown, hq, hword, hleft, -⟩ :=
      h.locate (h.fixed.stays_even heven) hhome hlocated
    rw [hlocate] at hsole' hgrown hleft
    have htidy' : Tidy map (· ∈ pairs') s' := htidy.grown hgrown
    have haddress : q.unit.address = map.canonical x :=
      eq_of_word (htidy'.home q hq).1 hhome.1 hword
    have hnew : q ∉ pairs := by
      intro hold
      obtain ⟨r, hr, haddress', -, -, hfound, -⟩ := htidy.newest h hold
      rw [haddress', haddress, hlookup] at hfound
      cases hfound
    have hentered := (hgrown.entered (fun u hu => hu.1.1) q hq).resolve_left hnew
    obtain ⟨⟨-, hunit | ⟨hagain, -⟩⟩, hheaded⟩ := (hgrown.added q hq).resolve_left hnew
    · have hexecutable : view.memory.isExecutable (map.canonical x) = false := by
        rw [MemoryMap.isExecutable_eq] at hmissing ⊢
        rw [← hcanonical, GuestView.canonical, h.fixed.sound.chunkAt?_canonical, hmissing]
      have hmade : q.unit = .missing (map.canonical x) := by
        rw [hunit, haddress, GuestView.unitAt, hexecutable]
        rfl
      rw [haddress] at hentered
      have hwithin := hsole'.within hq
      refine ⟨_, q, hsole', htidy', hq, hmade, hentered, ?_, hleft⟩
      rw [CodeStore.entryKind_eq (by omega) hheaded.second, hmade]
      exact EntryKind.noConfusion
    · cases hagain

/-- Executing where there is no executable memory is the fatal error. Wherever ranges start at even
addresses, and whatever was done before, a run from an even address where nothing can be executed,
with nothing in the way, ends with that error and leaves the guest as it was, as long as there is room
for the code, and the entry of the address, if it has one, is not redirected and was not made from an
instruction. -/
theorem execution_out_of_bounds {cpu : Cpu} {config : Config} {memory : MemoryMap}
    (hnew : cpu.IsNew config memory) (hstarts : ∀ chunk ∈ memory.chunks, chunk.start &&& 1 = 0)
    {c : Cpu} (hpath : ReflTransGen (Moment.Next fun _ => True) (.idle cpu) (.idle c))
    (heven : c.pc &&& 1 = 0) (hmissing : c.memory.isExecutable c.pc = false)
    (hstopped : c.stopped = false) (htrace : c.tracePending = false) (hlatched : c.latched = none)
    (hbreakpoint : c.hasBreakpoint c.pc = false)
    (hcode : ∀ n, c.store.lookup (c.memory.canonical c.pc) = some n →
      c.store.entryKind n ≠ .redirected ∧
        (n, c.memory.canonical c.pc) ∉ c.store.entries.origins)
    {target : UInt32} (htarget : c.cycle < target) (hends : c.store.endless = false)
    (hroom : (c.begin target).cpu.Roomy) :
    ∃ last, c.runUntil target = some (.error (.outOfBounds (c.memory.canonical c.pc)), last) ∧
      last.registers = c.registers ∧ last.memory = c.memory ∧ last.cycle = c.cycle := by
  have hgrows := c.grows_begin target
  have hsound := hnew.sound
  have hkeeps := MemoryMap.keepsEven_of_starts hstarts
  obtain ⟨P, htracks⟩ := hnew.tracks (Steady.tidy hkeeps hsound).upkeep
    ⟨fun _ hp => absurd hp not_false, fun _ hp => absurd hp not_false,
      fun _ hp => absurd hp not_false⟩
    (fun _ _ => trivial) hpath (hgrows.fits hroom.fits) cpu.registers
  obtain ⟨hsole, htidy⟩ : Sole config memory c.view P c.store ∧ Tidy memory P c.store := htracks.sole
  have hcanonical : c.memory.canonical c.pc = memory.canonical c.pc := hsole.fixed.canonical c.pc
  rw [hcanonical] at hcode ⊢
  obtain ⟨n, store, hlocate⟩ : ∃ n store, c.store.locate c.view c.pc = (n, store) := ⟨_, _, rfl⟩
  have hbegin := Cpu.begin_of_locate hlocate heven hstopped target
  rw [hbegin, Step.translated_cpu] at hroom
  rw [Step.translated_eq hroom.native] at hbegin
  obtain ⟨P', p, hsole', htidy', hp, hunit, hlookup, hkind, rfl⟩ :=
    hsole.locate_missing hkeeps htidy heven hmissing hcode hlocate hroom.fits
  let ready := { c.aim target with store := store }.updateLimit
  have hasked : (Session.start ready p.left.toUInt32).asked = ready := ready.storeHost_loadHost _
  have hgone : c.breakpoints[memory.canonical c.pc]? = none := by
    rw [Cpu.hasBreakpoint, hcanonical] at hbreakpoint
    refine Option.not_isSome_iff_eq_none.mp ?_
    rw [Std.TreeMap.isSome_getElem?_eq_contains, hbreakpoint]
    exact Bool.false_ne_true
  have hready : (Session.start ready p.left.toUInt32).machine.Ready :=
    ⟨Cpu.loadHost_context _ _, Cpu.loadHost_stack _ _⟩
  have hclear : ready.Clear := by
    refine ⟨?_, ne_true_of_eq_false htrace, hlatched⟩
    rintro (hover | hreturn)
    · exact absurd htarget (UInt32.not_lt.mpr hover)
    · cases hreturn
  obtain ⟨last, hfails, ⟨hendless, hfull⟩, hlast⟩ := Session.fails_missing (s := Session.start ready p.left.toUInt32)
    hsole' htidy' hp hunit hlookup hkind (by rw [hasked]; exact hgone) rfl hready
    (by rw [hasked]; exact hclear)
  rw [hasked] at hlast
  have hruns : c.RunsTo target (.error (.outOfBounds (memory.canonical c.pc)), last) := by
    rw [Cpu.RunsTo, hbegin]
    refine hfails.halts (hendless.trans ?_) (hfull.trans hroom.native)
    have hlocated := (c.store.lengthened_locate c.view c.pc).endless
    rw [hlocate] at hlocated
    exact hlocated.trans hends
  exact ⟨last, hruns.runUntil_eq, hlast⟩

theorem execution_out_of_bounds_nowhere :
    let cpu := Cpu.fresh .default (.nothing Config.default.addressMask)
    ∃ last, cpu.runUntil 5 = some (.error (.outOfBounds 0), last) ∧
      last.registers = cpu.registers ∧ last.memory = cpu.memory ∧ last.cycle = cpu.cycle := by
  intro cpu
  have hnone : cpu.store.lookup (cpu.memory.canonical cpu.pc) = none := by decide +kernel
  have hends := execution_out_of_bounds (c := cpu) (Cpu.isNew_nothing rfl)
    (fun chunk hchunk => absurd hchunk (Array.not_mem_empty chunk)) .refl
    (show (0 : UInt32) &&& 1 = 0 by decide) (by decide +kernel) rfl rfl rfl
    Std.TreeMap.contains_emptyc
    (fun n hn => absurd (hn.symm.trans hnone) (Option.some_ne_none n))
    (show (0 : UInt32) < 5 by decide) rfl
    ⟨show (cpu.begin 5).cpu.store.code.ops.size < 2 ^ 31 by decide +kernel, by decide +kernel⟩
  rw [show cpu.memory.canonical cpu.pc = 0 by decide +kernel] at hends
  exact hends

end Dynarec68k
