import Sequencer.Cluster.Run
import Sequencer.Proofs.Barrier
import Sequencer.Proofs.Core.Tick

/-! One cycle of a cluster, part by part.

    Every list of a cluster is indexed by the number of a core. `Tick m s s'` says what one cycle
    with `m` on the measurement lines does at each index: core `i` ticks on the response and the
    ready line that the distributor and the barrier give it, and client `i` sees the request of
    core `i`. -/

namespace Sequencer

namespace Distributor

/-- Each client latches its own request and whether its own response was ready. -/
theorem getElem?_latchClients {cs : List Client} {qs : List Request} {rs : List Response} {i : Nat}
    {c : Client} {q : Request} {r : Response} (hc : cs[i]? = some c) (hq : qs[i]? = some q)
    (hr : rs[i]? = some r) : (latchClients cs qs rs)[i]? = some (c.latch q r.ready) := by
  induction cs generalizing qs rs i with
  | nil => exact nomatch hc
  | cons c₀ cs ih =>
    cases qs with
    | nil => exact nomatch hq
    | cons q₀ qs =>
      cases rs with
      | nil => exact nomatch hr
      | cons r₀ rs =>
        cases i with
        | zero =>
          obtain rfl := Option.some.inj hc
          obtain rfl := Option.some.inj hq
          obtain rfl := Option.some.inj hr
          rfl
        | succ i => exact ih hc hq hr

theorem length_latchClients : ∀ (cs : List Client) (qs : List Request) (rs : List Response),
    (latchClients cs qs rs).length = cs.length
  | [], _, _ => rfl
  | _ :: _, [], _ => rfl
  | _ :: _, _ :: _, [] => rfl
  | _ :: cs, _ :: qs, _ :: rs => congrArg (· + 1) (length_latchClients cs qs rs)

/-- Each client with a response line gives the response of that line. -/
theorem getElem?_respondAll {m : Meas} {entry : Option UInt32} :
    ∀ {cs : List Client} {rs rs' : List Response}, respondAll m entry cs rs = .ok rs' →
    ∀ {i : Nat} {c : Client} {r : Response}, cs[i]? = some c → rs[i]? = some r →
    ∃ r', rs'[i]? = some r' ∧ c.respond m entry = .ok r'
  | [], _, _, _, _, _, _, hc, _ => nomatch hc
  | _ :: _, [], _, _, _, _, _, _, hr => nomatch hr
  | c :: cs, _ :: rs, rs', h, i, c', r, hc, hr => by
    obtain ⟨r₀, hr₀, h⟩ := Checked.bind_eq_ok.mp h
    obtain ⟨rest, hrest, h⟩ := Checked.bind_eq_ok.mp h
    obtain rfl : r₀ :: rest = rs' := Except.ok.inj h
    cases i with
    | zero =>
      obtain rfl : c = c' := Option.some.inj hc
      exact ⟨r₀, rfl, hr₀⟩
    | succ i => exact getElem?_respondAll hrest hc hr

theorem exists_respondAll {m : Meas} {entry : Option UInt32} :
    ∀ (cs : List Client) (rs : List Response), (∀ c ∈ cs, ∃ r, c.respond m entry = .ok r) →
    ∃ rs', respondAll m entry cs rs = .ok rs'
  | [], rs, _ => ⟨rs, rfl⟩
  | _ :: _, [], _ => ⟨[], rfl⟩
  | c :: cs, _ :: rs, h => by
    obtain ⟨r, hr⟩ := h c (by simp)
    obtain ⟨rs', hrs'⟩ := exists_respondAll cs rs fun c' hc => h c' (List.mem_cons_of_mem c hc)
    exact ⟨r :: rs', by simp only [respondAll, hr, hrs', Checked.ok_bind, Checked.pure_eq_ok]⟩

theorem length_respondAll {m : Meas} {entry : Option UInt32} :
    ∀ {cs : List Client} {rs rs' : List Response}, respondAll m entry cs rs = .ok rs' →
    rs'.length = rs.length
  | [], rs, rs', h => by rw [← Except.ok.inj h]
  | _ :: _, [], rs', h => by rw [← Except.ok.inj h]
  | c :: cs, _ :: rs, rs', h => by
    obtain ⟨r₀, -, h⟩ := Checked.bind_eq_ok.mp h
    obtain ⟨rest, hrest, h⟩ := Checked.bind_eq_ok.mp h
    obtain rfl : r₀ :: rest = rs' := Except.ok.inj h
    exact congrArg (· + 1) (length_respondAll hrest)

end Distributor

namespace Cluster

theorem latchCores_eq_mapM : ∀ cs : List Core, latchCores cs = cs.mapM Core.latch
  | [] => rfl
  | c :: cs => by rw [latchCores, latchCores_eq_mapM cs, List.mapM_cons]

theorem resetCores_eq_mapM : ∀ cs : List Core, resetCores cs = cs.mapM Core.reset
  | [] => rfl
  | c :: cs => by rw [resetCores, resetCores_eq_mapM cs, List.mapM_cons]

/-- Each core settles on its own response and ready line. -/
theorem getElem?_propagateCores {lut : Distributor} {barrier : Barrier} :
    ∀ {cs cs' : List Core} {index : Nat}, propagateCores lut barrier index cs = .ok cs' →
    cs'.length = cs.length ∧ ∀ (i : Nat) c, cs[i]? = some c →
      ∃ r ready c', lut.responses[index + i]? = some r ∧ barrier.ready (index + i) = .ok ready ∧
        cs'[i]? = some c' ∧ (c.drive ⟨r, ready⟩).propagate = .ok c'
  | [], cs', _, h => by
    obtain rfl : [] = cs' := Except.ok.inj h
    exact ⟨rfl, fun i c hc => absurd hc (by simp)⟩
  | c :: cs, cs', index, h => by
    rw [propagateCores] at h
    obtain ⟨r, hr, h⟩ := Checked.bind_eq_ok.mp h
    obtain ⟨ready, hready, h⟩ := Checked.bind_eq_ok.mp h
    obtain ⟨c₁, hc₁, h⟩ := Checked.bind_eq_ok.mp h
    obtain ⟨rest, hrest, h⟩ := Checked.bind_eq_ok.mp h
    obtain rfl : c₁ :: rest = cs' := Except.ok.inj h
    obtain ⟨hlength, hget⟩ := getElem?_propagateCores hrest
    refine ⟨congrArg (· + 1) hlength, fun i c' hc' => ?_⟩
    cases i with
    | zero =>
      obtain rfl : c = c' := Option.some.inj hc'
      exact ⟨r, ready, c₁, Checked.get_eq_ok.mp hr, hready, rfl, hc₁⟩
    | succ i =>
      have hi : index + (i + 1) = index + 1 + i := by omega
      rw [hi]
      exact hget i c' hc'

theorem mem_propagateCores {lut : Distributor} {barrier : Barrier} {cs cs' : List Core}
    {index : Nat} (h : propagateCores lut barrier index cs = .ok cs') {c' : Core} (hc' : c' ∈ cs') :
    ∃ c ∈ cs, ∃ i : Inputs, (c.drive i).propagate = .ok c' := by
  obtain ⟨hlength, hget⟩ := getElem?_propagateCores h
  obtain ⟨k, hk⟩ := List.mem_iff_getElem?.mp hc'
  have hlt : k < cs.length := hlength ▸ (List.getElem?_eq_some_iff.mp hk).1
  obtain ⟨r, ready, d, -, -, hd, hp⟩ := hget k _ (List.getElem?_eq_getElem hlt)
  obtain rfl := Option.some.inj (hk.symm.trans hd)
  exact ⟨_, List.getElem_mem hlt, _, hp⟩

theorem exists_propagateCores (lut : Distributor) (barrier : Barrier) :
    ∀ (index : Nat) (cs : List Core), index + cs.length ≤ lut.responses.length →
    (∀ c ∈ cs, ∀ i : Inputs, ∃ c', (c.drive i).propagate = .ok c') →
    ∃ cs', propagateCores lut barrier index cs = .ok cs'
  | _, [], _, _ => ⟨[], rfl⟩
  | index, c :: cs, hle, h => by
    rw [List.length_cons] at hle
    obtain ⟨r, hr⟩ : ∃ r, lut.response index = .ok r :=
      ⟨_, Checked.get_eq_ok.mpr (List.getElem?_eq_getElem (by omega))⟩
    obtain ⟨ready, hready⟩ := barrier.exists_ready index
    obtain ⟨c', hc'⟩ := h c (by simp) ⟨r, ready⟩
    obtain ⟨cs', hcs'⟩ := exists_propagateCores lut barrier (index + 1) cs (by omega)
      fun d hd => h d (List.mem_cons_of_mem c hd)
    refine ⟨c' :: cs', ?_⟩
    rw [propagateCores, hr, Checked.ok_bind, hready, Checked.ok_bind]
    refine Checked.bind_eq_ok.mpr ⟨c', hc', ?_⟩
    rw [hcs']
    rfl

/-! ### The edge and the settling after it -/

variable {s s' : Cluster} {m : Meas} {i : Nat} {c : Core}

theorem latch_eq_ok : s.latch = .ok s' ↔ ∃ barrier cs,
    s.barrier.latch s.syncRequests = .ok barrier ∧ s.cores.mapM Core.latch = .ok cs ∧
    s.cycle + 1 < 1 <<< 64 ∧
    s' = { cores := cs, lut := s.lut.latch s.fprocRequests, barrier, cycle := s.cycle + 1 } := by
  simp only [latch, latchCores_eq_mapM, Checked.bind_eq_ok, Checked.succ64_eq_ok,
    Checked.pure_eq_ok, Except.ok.injEq]
  constructor
  · rintro ⟨barrier, hbarrier, cs, hcs, cycle, ⟨hlt, rfl⟩, rfl⟩
    exact ⟨barrier, cs, hbarrier, hcs, hlt, rfl⟩
  · rintro ⟨barrier, cs, hbarrier, hcs, hlt, rfl⟩
    exact ⟨barrier, hbarrier, cs, hcs, _, ⟨hlt, rfl⟩, rfl⟩

theorem propagate_eq_ok : s.propagate m = .ok s' ↔ ∃ rs cs,
    Distributor.respondAll m s.lut.round.output s.lut.clients s.lut.responses = .ok rs ∧
    propagateCores { s.lut with meas := m, responses := rs } s.barrier 0 s.cores = .ok cs ∧
    s' = { s with cores := cs, lut := { s.lut with meas := m, responses := rs } } := by
  simp only [propagate, Distributor.propagate, Checked.bind_eq_ok, Checked.pure_eq_ok,
    Except.ok.injEq]
  constructor
  · rintro ⟨_, ⟨rs, hrs, rfl⟩, cs, hcs, rfl⟩
    exact ⟨rs, cs, hrs, hcs, rfl⟩
  · rintro ⟨rs, cs, hrs, hcs, rfl⟩
    exact ⟨_, ⟨rs, hrs, rfl⟩, cs, hcs, rfl⟩

theorem clock_eq_ok : s.clock m = .ok s' ↔ ∃ edge, s.latch = .ok edge ∧ edge.propagate m = .ok s' :=
  Checked.bind_eq_ok

theorem reset_eq_ok : s.reset = .ok s' ↔ ∃ cs, s.cores.mapM Core.reset = .ok cs ∧
    propagate { cores := cs, lut := s.lut.reset, barrier := s.barrier.reset, cycle := 0 } {} =
      .ok s' := by
  rw [reset, resetCores_eq_mapM, Checked.bind_eq_ok]

theorem getElem?_fprocRequests (h : s.cores[i]? = some c) :
    s.fprocRequests[i]? = some c.lines.fprocRequest := by
  rw [fprocRequests, List.getElem?_map, h]
  rfl

/-- A clock of the cluster clocks each core, driven with its own response and ready line. -/
theorem clock_core (h : s.clock m = .ok s') (hc : s.cores[i]? = some c) :
    ∃ r ready c', s'.lut.responses[i]? = some r ∧ s'.barrier.ready i = .ok ready ∧
      s'.cores[i]? = some c' ∧ (c.drive ⟨r, ready⟩).clock = .ok c' := by
  obtain ⟨edge, hedge, h⟩ := clock_eq_ok.mp h
  obtain ⟨barrier, cs, -, hcs, -, rfl⟩ := latch_eq_ok.mp hedge
  obtain ⟨rs, cs', -, hcs', rfl⟩ := propagate_eq_ok.mp h
  obtain ⟨edge, hedge, hl⟩ := (Checked.mapM_eq_ok hcs).2 i c hc
  obtain ⟨r, ready, c', hr, hready, hc', hp⟩ := (getElem?_propagateCores hcs').2 i edge hedge
  rw [Nat.zero_add] at hr hready
  exact ⟨r, ready, c', hr, hready, hc', Core.clock_drive_eq_ok.mpr ⟨edge, hl, hp⟩⟩

theorem mem_clock (h : s.clock m = .ok s') {c' : Core} (hc' : c' ∈ s'.cores) :
    ∃ c ∈ s.cores, ∃ i : Inputs, (c.drive i).clock = .ok c' := by
  obtain ⟨edge, hedge, hp⟩ := clock_eq_ok.mp h
  obtain ⟨barrier, cs, -, hcs, -, rfl⟩ := latch_eq_ok.mp hedge
  obtain ⟨rs, cs', -, hcs', rfl⟩ := propagate_eq_ok.mp hp
  obtain ⟨edge, hmem, i, hp⟩ := mem_propagateCores hcs' hc'
  obtain ⟨c, hc, hl⟩ := Checked.mem_mapM hcs hmem
  exact ⟨c, hc, i, Core.clock_drive_eq_ok.mpr ⟨edge, hl, hp⟩⟩

/-! ### Ticks -/

/-- One cycle from `s` to `s'`, with `m` on the measurement lines of the new cycle. -/
structure Tick (m : Meas) (s s' : Cluster) : Prop where
  length : s'.cores.length = s.cores.length
  core : ∀ {i : Nat} {c : Core}, s.cores[i]? = some c →
    ∃ r ready c', s'.lut.responses[i]? = some r ∧ s'.barrier.ready i = .ok ready ∧
      s'.cores[i]? = some c' ∧ Core.Tick ⟨r, ready⟩ c c'
  client : ∀ {i : Nat} {c : Core} {cl : Client} {r : Response},
    s.cores[i]? = some c → s.lut.clients[i]? = some cl → s.lut.responses[i]? = some r →
    ∃ r', s'.lut.clients[i]? = some (cl.latch c.lines.fprocRequest r.ready) ∧
      s'.lut.responses[i]? = some r' ∧
      (cl.latch c.lines.fprocRequest r.ready).respond m s'.lut.round.output = .ok r'
  clients : s'.lut.clients.length = s.lut.clients.length
  round : s'.lut.round = s.lut.round.latch s.lut.meas
  meas : s'.lut.meas = m
  barrier : s.barrier.latch s.syncRequests = .ok s'.barrier
  cycle : s'.cycle = s.cycle + 1
  cycle_lt : s.cycle + 1 < 1 <<< 64

theorem tick_of_clock (h : s.clock m = .ok s') : Tick m s s' := by
  have hcore := @clock_core s s' m
  obtain ⟨edge, hedge, hp⟩ := clock_eq_ok.mp h
  obtain ⟨barrier, cs, hbarrier, hcs, hlt, rfl⟩ := latch_eq_ok.mp hedge
  obtain ⟨rs, cs', hrs, hcs', rfl⟩ := propagate_eq_ok.mp hp
  have hlength := (getElem?_propagateCores hcs').1.trans (Checked.mapM_eq_ok hcs).1
  refine ⟨hlength, fun hc => ?_, fun hc hcl hr => ?_, Distributor.length_latchClients _ _ _, rfl,
    rfl, hbarrier, rfl, hlt⟩
  · obtain ⟨r, ready, c', hr, hready, hc', hclock⟩ := hcore h hc
    exact ⟨r, ready, c', hr, hready, hc', Core.tick_of_clock hclock⟩
  · have hcl' := Distributor.getElem?_latchClients hcl (getElem?_fprocRequests hc) hr
    obtain ⟨r', hr', hrespond⟩ := Distributor.getElem?_respondAll hrs hcl' hr
    exact ⟨r', hcl', hr', hrespond⟩

end Cluster

end Sequencer
