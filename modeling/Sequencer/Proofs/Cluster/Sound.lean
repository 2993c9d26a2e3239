import Mathlib
import Sequencer.Proofs.Cluster.Tick
import Sequencer.Proofs.Core.Sound
import Sequencer.Proofs.Lookup.Table

/-! Sound clusters never fault.

    In a sound cluster every core is sound and shares the cycle of the cluster, and is wired to the
    client and to the response line of its own number. `Reachable` are the clusters that building,
    loading programs, clocking and resetting lead to: all of them are sound, and a property of them
    is proved for the start, for loading and for one tick (`Reachable.invariant`). -/

namespace Sequencer

/-! ### The address of a round -/

namespace Round

/-- The address of a round names an entry of the table: it has only bits of required lines. -/
structure Bounded (r : Round) : Prop where
  mask_lt : r.table.requiredMask.toNat < r.table.entries.size
  addr : r.addr &&& r.table.requiredMask = r.addr

variable {r : Round}

theorem Bounded.accumulate (h : r.Bounded) (m : Meas) : (r.accumulate m).Bounded := by
  refine ⟨h.mask_lt, ?_⟩
  have hadd (x : UInt32) : (r.addr ||| x) &&& r.table.requiredMask =
      (r.addr &&& r.table.requiredMask) ||| (x &&& r.table.requiredMask) :=
    UInt32.toBitVec_inj.mp BitVec.and_or_distrib_right
  refine (hadd _).trans ?_
  rw [h.addr, UInt32.and_assoc, UInt32.and_assoc, UInt32.and_self]
  rfl

theorem Bounded.reset (h : r.Bounded) : r.reset.Bounded :=
  ⟨h.mask_lt, UInt32.zero_and⟩

theorem Bounded.latch (h : r.Bounded) (m : Meas) : (r.latch m).Bounded := by
  unfold Round.latch
  split
  · simp only
    split
    · exact ⟨(h.accumulate m).mask_lt, (h.accumulate m).addr⟩
    · exact h.accumulate m
  · exact h.reset

theorem Bounded.addr_lt (h : r.Bounded) : r.addr.toNat < r.table.entries.size := by
  have hle : r.addr.toNat ≤ r.table.requiredMask.toNat := by
    rw [← h.addr, UInt32.toNat_and]
    exact Nat.and_le_right
  exact hle.trans_lt h.mask_lt

/-- A completed round presents an entry. -/
theorem Bounded.output_eq (h : r.Bounded) (hs : r.state = .ready) :
    ∃ entry, r.table.entries[r.addr.toNat]? = some entry ∧ r.output = some entry := by
  have hget := Array.getElem?_eq_getElem h.addr_lt
  exact ⟨_, hget, by rw [output, hs]; exact hget⟩

end Round

/-- A distributor is built from a valid table, with a client and a response line for each core. -/
theorem Distributor.new_eq_pure {table : LookupTable} {n : Nat} {d : Distributor}
    (h : Distributor.new table n = pure d) :
    table.validate n = pure () ∧
      d = { round := { table := table }
            clients := (List.range n).map fun core => { core := core }
            responses := List.replicate n {} } := by
  obtain ⟨_, hv, h⟩ := Attempt.bind_eq_pure.mp h
  exact ⟨hv, (Attempt.pure_inj.mp h).symm⟩

namespace Client

theorem bit_eq {cl : Client} (h : cl.core < 32) (w : UInt32) :
    cl.bit w = .ok (w.toNat.testBit cl.core).toUInt32 := by
  rw [bit, Checked.shiftRight_of_lt w h, Checked.ok_bind, Checked.shiftRight_and_one w h]
  rfl

theorem exists_respond {cl : Client} (h : cl.core < 32) (m : Meas) (entry : Option UInt32) :
    ∃ r, cl.respond m entry = .ok r := by
  unfold respond
  split
  · rw [bit_eq h, Checked.ok_bind]
    split
    · rw [bit_eq h]
      exact ⟨_, rfl⟩
    · exact ⟨_, rfl⟩
  · rw [bit_eq h]
    exact ⟨_, rfl⟩
  · exact ⟨_, rfl⟩

theorem respond_idle {cl : Client} (h : cl.state = .idle) (m : Meas) (entry : Option UInt32) :
    cl.respond m entry = .ok {} := by
  unfold respond
  rw [h]
  rfl

theorem core_latch (cl : Client) (q : Request) (answered : Bool) :
    (cl.latch q answered).core = cl.core := by
  unfold latch
  split <;> split <;> rfl

end Client

/-- What the edge of a client keeps, the edge of all clients keeps in order. -/
theorem Distributor.map_latchClients {α : Type} {f : Client → α}
    (hf : ∀ (cl : Client) (q : Request) (answered : Bool), f (cl.latch q answered) = f cl) :
    ∀ (cs : List Client) (qs : List Request) (rs : List Response),
      (latchClients cs qs rs).map f = cs.map f
  | [], _, _ => rfl
  | _ :: _, [], _ => rfl
  | _ :: _, _ :: _, [] => rfl
  | cl :: cs, q :: qs, r :: rs => by
    rw [latchClients, List.map_cons, hf, map_latchClients hf cs qs rs, List.map_cons]

theorem Distributor.core_of_mem_latchClients {cs : List Client} {qs : List Request}
    {rs : List Response} {cl : Client} (h : cl ∈ latchClients cs qs rs) :
    ∃ cl₀ ∈ cs, cl₀.core = cl.core := by
  have hmap := map_latchClients Client.core_latch cs qs rs
  exact List.mem_map.mp (hmap ▸ List.mem_map_of_mem h)

namespace Cluster

/-- Settling needs a response line for each core, clients with a bit in a word, and formed cores. -/
theorem exists_propagate {s : Cluster} (hclients : ∀ cl ∈ s.lut.clients, cl.core < 32)
    (hresponses : s.cores.length ≤ s.lut.responses.length) (hcores : ∀ c ∈ s.cores, c.Formed)
    (m : Meas) : ∃ s', s.propagate m = .ok s' := by
  obtain ⟨rs, hrs⟩ := Distributor.exists_respondAll s.lut.clients s.lut.responses fun cl hcl =>
    Client.exists_respond (hclients cl hcl) m s.lut.round.output
  obtain ⟨cs, hcs⟩ := exists_propagateCores { s.lut with meas := m, responses := rs } s.barrier 0
    s.cores (by rw [Nat.zero_add, Distributor.length_respondAll hrs]; exact hresponses)
    fun c hc i => ((hcores c hc).drive i).exists_propagate
  exact ⟨_, propagate_eq_ok.mpr ⟨rs, cs, hrs, hcs, rfl⟩⟩

/-- A cluster whose cores have a next cycle has one too. -/
theorem exists_clock {s : Cluster} (hcycle : s.cycle + 1 < 2 ^ 64)
    (hclients : ∀ cl ∈ s.lut.clients, cl.core < 32)
    (hresponses : s.cores.length ≤ s.lut.responses.length)
    (hcores : ∀ c ∈ s.cores, ∃ c', c.latch = .ok c' ∧ c'.Formed) (m : Meas) :
    ∃ s', s.clock m = .ok s' := by
  obtain ⟨barrier, hbarrier⟩ := s.barrier.exists_latch s.syncRequests
  obtain ⟨cs, hcs⟩ := Checked.exists_mapM fun c hc => (hcores c hc).imp fun _ h => h.1
  have hlength := (Checked.mapM_eq_ok hcs).1
  have hedge := latch_eq_ok.mpr ⟨barrier, cs, hbarrier, hcs, hcycle, rfl⟩
  obtain ⟨s', hs'⟩ := exists_propagate
    (s := ⟨cs, s.lut.latch s.fprocRequests, barrier, s.cycle + 1⟩)
    (fun cl hcl => by
      obtain ⟨cl₀, hcl₀, hcore⟩ := Distributor.core_of_mem_latchClients hcl
      rw [← hcore]
      exact hclients cl₀ hcl₀)
    (hlength.trans_le hresponses)
    (fun edge hmem => by
      obtain ⟨c, hc, hl⟩ := Checked.mem_mapM hcs hmem
      obtain ⟨c', hc', hformed⟩ := hcores c hc
      exact Except.ok.inj (hc'.symm.trans hl) ▸ hformed) m
  exact ⟨s', clock_eq_ok.mpr ⟨_, hedge, hs'⟩⟩

/-! ### Sound clusters -/

/-- Core `i` and the client and response line of its number. -/
structure Wired (s : Cluster) (i : Nat) (c : Core) (cl : Client) (r : Response) : Prop where
  client : s.lut.clients[i]? = some cl
  number : cl.core = i
  response : s.lut.responses[i]? = some r
  answer : cl.respond s.lut.meas s.lut.round.output = .ok r
  driven : c.lines.fprocResponse = r
  ready : s.barrier.ready i = .ok c.lines.syncReady

structure Sound (s : Cluster) : Prop where
  cores_le : s.cores.length ≤ 32
  clients : s.lut.clients.length = s.cores.length
  round : s.lut.round.Bounded
  core : ∀ {i : Nat} {c : Core}, s.cores[i]? = some c → c.Sound ∧ c.cycle = s.cycle
  wired : ∀ {i : Nat} {c : Core}, s.cores[i]? = some c → ∃ cl r, Wired s i c cl r

variable {s s' : Cluster} {m : Meas} {i : Nat} {c c' : Core}

theorem Tick.wired (h : Tick m s s') {cl : Client} {r : Response} (hc : s.cores[i]? = some c)
    (hw : Wired s i c cl r) :
    ∃ c' r' ready, s'.cores[i]? = some c' ∧ Core.Tick ⟨r', ready⟩ c c' ∧
      Wired s' i c' (cl.latch c.lines.fprocRequest r.ready) r' := by
  obtain ⟨r', ready, c', hr', hready, hc', htick⟩ := h.core hc
  obtain ⟨r'', hcl', hr'', hrespond⟩ := h.client hc hw.client hw.response
  obtain rfl : r' = r'' := Option.some.inj (hr'.symm.trans hr'')
  refine ⟨c', r', ready, hc', htick, hcl', ?_, hr', ?_, htick.response, ?_⟩
  · rw [Client.core_latch, hw.number]
  · rw [h.meas]
    exact hrespond
  · rw [hready, htick.syncReady]

theorem Tick.exists_core (h : Tick m s s') (hc' : s'.cores[i]? = some c') :
    ∃ c, s.cores[i]? = some c := by
  have hlt := (List.getElem?_eq_some_iff.mp hc').1
  rw [h.length] at hlt
  exact ⟨_, List.getElem?_eq_getElem hlt⟩

theorem Tick.sound (h : Tick m s s') (hs : s.Sound) : s'.Sound := by
  refine ⟨h.length.trans_le hs.cores_le, ?_, ?_, fun hc' => ?_, fun hc' => ?_⟩
  · rw [h.length, h.clients]
    exact hs.clients
  · rw [h.round]
    exact hs.round.latch _
  · obtain ⟨c, hc⟩ := h.exists_core hc'
    obtain ⟨r, ready, d, -, -, hd, htick⟩ := h.core hc
    obtain rfl := Option.some.inj (hc'.symm.trans hd)
    obtain ⟨hsound, hcycle⟩ := hs.core hc
    exact ⟨htick.sound hsound, by rw [htick.cycle, hcycle, h.cycle]⟩
  · obtain ⟨c, hc⟩ := h.exists_core hc'
    obtain ⟨cl, r, hw⟩ := hs.wired hc
    obtain ⟨d, r', ready, hd, -, hw'⟩ := h.wired hc hw
    obtain rfl := Option.some.inj (hc'.symm.trans hd)
    exact ⟨_, r', hw'⟩

theorem Sound.client_lt (hs : s.Sound) : ∀ cl ∈ s.lut.clients, cl.core < s.cores.length := by
  intro cl hcl
  obtain ⟨i, hi⟩ := List.mem_iff_getElem?.mp hcl
  have hlt := (List.getElem?_eq_some_iff.mp hi).1
  rw [hs.clients] at hlt
  obtain ⟨cl', r, hw⟩ := hs.wired (List.getElem?_eq_getElem hlt)
  obtain rfl := Option.some.inj (hi.symm.trans hw.client)
  rw [hw.number]
  exact hlt

theorem Sound.clients_lt (hs : s.Sound) : ∀ cl ∈ s.lut.clients, cl.core < 32 :=
  fun cl hcl => (hs.client_lt cl hcl).trans_le hs.cores_le

theorem Sound.responses_le (hs : s.Sound) : s.cores.length ≤ s.lut.responses.length := by
  by_contra hlt
  obtain ⟨cl, r, hw⟩ := hs.wired (List.getElem?_eq_getElem (Nat.not_le.mp hlt))
  exact absurd (List.getElem?_eq_some_iff.mp hw.response).1 (lt_irrefl _)

/-- A sound cluster has a next cycle until the cycle count is exhausted. -/
theorem Sound.exists_clock (hs : s.Sound) (hcycle : s.cycle + 1 < 2 ^ 64) (m : Meas) :
    ∃ s', s.clock m = .ok s' := by
  refine Cluster.exists_clock hcycle hs.clients_lt hs.responses_le (fun c hc => ?_) m
  obtain ⟨i, hi⟩ := List.mem_iff_getElem?.mp hc
  obtain ⟨hsound, heq⟩ := hs.core hi
  obtain ⟨edge, hedge⟩ := hsound.exists_latch (by rw [heq]; exact hcycle)
  exact ⟨edge, hedge, hsound.formed.latch hedge⟩

/-! ### Fresh clusters, programs and resets -/

/-- Every core is in its first cycle, no client has a request and no barrier fires. -/
structure AtStart (s : Cluster) : Prop where
  core : ∀ {i : Nat} {c : Core}, s.cores[i]? = some c → c.AtStart
  client : ∀ {i : Nat} {cl : Client}, s.lut.clients[i]? = some cl → cl.state = .idle
  fire : s.barrier.fire = false

theorem Sound.withBarrier (hs : s.Sound) (h0 : s.AtStart) (participants : UInt32) :
    (s.withBarrier participants).Sound ∧ (s.withBarrier participants).AtStart := by
  refine ⟨⟨hs.cores_le, hs.clients, hs.round, hs.core, fun hc => ?_⟩, ⟨h0.core, h0.client, rfl⟩⟩
  obtain ⟨cl, r, hw⟩ := hs.wired hc
  exact ⟨cl, r, { hw with ready := congrArg Except.ok (h0.core hc).syncReady.symm }⟩

/-- The cores of a cluster in which core `k` is replaced. -/
theorem getElem?_setCore {k : Nat} {d : Core} (h : (s.setCore k d).cores[i]? = some c) :
    (i = k ∧ c = d) ∨ s.cores[i]? = some c := by
  rw [setCore, List.getElem?_set] at h
  split at h
  case isTrue hik =>
    split at h
    · exact .inl ⟨hik.symm, (Option.some.inj h).symm⟩
    · cases h
  case isFalse => exact .inr h

theorem Sound.load (hs : s.Sound) {k : Nat} {program : List Word}
    {result : Except ProgramTooLong Unit} (hc : s.core k = .ok c)
    (hl : c.loadProgram program = .ok (c', result)) : (s.setCore k c').Sound := by
  have hk : s.cores[k]? = some c := Checked.get_eq_ok.mp hc
  have hsound := (hs.core hk).1.load hl
  obtain ⟨words, rfl, -⟩ := Core.exists_holding_of_load hl
  have hlength : (s.setCore k (c.holding words)).cores.length = s.cores.length := List.length_set
  refine ⟨hlength.trans_le hs.cores_le, hs.clients.trans hlength.symm, hs.round, fun hd => ?_,
    fun hd => ?_⟩
  · rcases getElem?_setCore hd with ⟨rfl, rfl⟩ | hd
    · exact ⟨hsound, (hs.core hk).2⟩
    · exact hs.core hd
  · rcases getElem?_setCore hd with ⟨rfl, rfl⟩ | hd
    · obtain ⟨cl, r, hw⟩ := hs.wired hk
      exact ⟨cl, r, { hw with }⟩
    · obtain ⟨cl, r, hw⟩ := hs.wired hd
      exact ⟨cl, r, { hw with }⟩

theorem Sound.reset (hs : s.Sound) (h : s.reset = .ok s') : s'.Sound ∧ s'.AtStart := by
  obtain ⟨cs, hcs, h⟩ := reset_eq_ok.mp h
  obtain ⟨rs, cs', hrs, hcs', rfl⟩ := propagate_eq_ok.mp h
  obtain ⟨hlength, hreset⟩ := Checked.mapM_eq_ok hcs
  obtain ⟨hlength', hpropagate⟩ := getElem?_propagateCores hcs'
  have hidle : ∀ {i : Nat} {cl : Client}, s.lut.reset.clients[i]? = some cl → cl.state = .idle := by
    intro i cl hcl
    rw [Distributor.reset, List.getElem?_map, Option.map_eq_some_iff] at hcl
    obtain ⟨cl₀, -, rfl⟩ := hcl
    rfl
  -- On the silent lines of the first cycle each client answers nothing.
  have hstart : ∀ {i : Nat} {c : Core}, cs'[i]? = some c → c.Sound ∧ c.AtStart ∧
      ∃ cl, s.lut.reset.clients[i]? = some cl ∧ cl.core = i ∧ rs[i]? = some {} := by
    intro i c' hc'
    have hlt := (List.getElem?_eq_some_iff.mp hc').1
    rw [hlength', hlength] at hlt
    have hc := List.getElem?_eq_getElem hlt
    obtain ⟨c₁, hc₁, hcreset⟩ := hreset _ _ hc
    obtain ⟨r, ready, d, hr, hready, hd, hp⟩ := hpropagate _ _ hc₁
    obtain rfl := Option.some.inj (hc'.symm.trans hd)
    obtain rfl : false = ready := Except.ok.inj hready
    rw [Nat.zero_add] at hr
    obtain ⟨cl, r₀, hw⟩ := hs.wired hc
    have hcl : s.lut.reset.clients[i]? = some cl.reset := by
      rw [Distributor.reset, List.getElem?_map, hw.client]
      rfl
    have hr₀ : s.lut.reset.responses[i]? = some {} := by
      rw [Distributor.reset, List.getElem?_map, hw.response]
      rfl
    obtain ⟨r', hr', hrespond⟩ := Distributor.getElem?_respondAll hrs hcl hr₀
    rw [Client.respond_idle rfl, Except.ok.injEq] at hrespond
    subst hrespond
    obtain rfl : r = {} := Option.some.inj (hr.symm.trans hr')
    obtain ⟨hsound, hat⟩ := (hs.core hc).1.formed.reset hcreset
    refine ⟨hsound.redrive hp, Core.atStart_of_propagate hp ?_, cl.reset, hcl, hw.number, hr'⟩
    exact ⟨hat.state, hat.fetchCycle, hat.retired, hat.cycle, rfl, rfl⟩
  refine ⟨⟨?_, ?_, hs.round.reset, fun hc => ?_, fun hc => ?_⟩, fun hc => (hstart hc).2.1, hidle,
    rfl⟩
  · exact (hlength'.trans hlength).trans_le hs.cores_le
  · exact List.length_map _ |>.trans (hs.clients.trans (hlength'.trans hlength).symm)
  · exact ⟨(hstart hc).1, (hstart hc).2.1.cycle⟩
  · obtain ⟨-, hat, cl, hcl, hnumber, hr⟩ := hstart hc
    exact ⟨cl, {}, hcl, hnumber, hr, Client.respond_idle (hidle hcl) _ _, hat.response,
      congrArg Except.ok hat.syncReady.symm⟩

theorem new_eq_pure {config : Config} {n : Nat} {table : LookupTable}
    (h : Cluster.new config n table = pure s) :
    n ≤ 32 ∧ ∃ core lut participants, Core.new config = pure core ∧
      Distributor.new table n = pure lut ∧
      s = { cores := List.replicate n core, lut, barrier := { participants := participants } } := by
  simp only [Cluster.new] at h
  split at h
  case isTrue => cases h
  split at h
  case isTrue => cases h
  case isFalse hle =>
    obtain ⟨core, hcore, h⟩ := Attempt.bind_eq_pure.mp h
    obtain ⟨lut, hlut, h⟩ := Attempt.bind_eq_pure.mp h
    obtain ⟨participants, -, h⟩ := Attempt.bind_eq_pure.mp h
    exact ⟨Nat.not_lt.mp hle, core, lut, participants, Attempt.adapt_eq_pure.mp hcore,
      Attempt.adapt_eq_pure.mp hlut, (Attempt.pure_inj.mp h).symm⟩

theorem sound_of_new {config : Config} {n : Nat} {table : LookupTable}
    (h : Cluster.new config n table = pure s) : s.Sound ∧ s.AtStart := by
  obtain ⟨hle, core, lut, participants, hcore, hlut, rfl⟩ := new_eq_pure h
  obtain ⟨hvalid, rfl⟩ := Distributor.new_eq_pure hlut
  obtain ⟨hsound, -, hstart⟩ := Core.sound_of_new hcore
  have hseat : ∀ {i : Nat} {c : Core}, (List.replicate n core)[i]? = some c → i < n ∧ core = c := by
    intro i c hc
    obtain ⟨hlt, heq⟩ := List.getElem?_eq_some_iff.mp hc
    rw [List.getElem_replicate] at heq
    exact ⟨by simpa using hlt, heq⟩
  refine ⟨⟨?_, ?_, ⟨LookupTable.mask_lt_of_validate hvalid, UInt32.zero_and⟩, fun hc => ?_,
    fun hc => ?_⟩, ⟨fun hc => ?_, fun hcl => ?_, rfl⟩⟩
  · simpa using hle
  · simp
  · obtain ⟨-, rfl⟩ := hseat hc
    exact ⟨hsound, hstart.cycle⟩
  · obtain ⟨hlt, rfl⟩ := hseat hc
    refine ⟨{ core := _ }, {}, ?_, rfl, ?_, Client.respond_idle rfl _ _, hstart.response,
      congrArg Except.ok hstart.syncReady.symm⟩
    · simp [hlt]
    · simp [hlt]
  · obtain ⟨-, rfl⟩ := hseat hc
    exact hstart
  · rw [List.getElem?_map, Option.map_eq_some_iff] at hcl
    obtain ⟨k, -, rfl⟩ := hcl
    rfl

/-! ### Reachable clusters -/

/-- The clusters that building, loading programs, clocking and resetting lead to. -/
inductive Reachable : Cluster → Prop
  | new {config : Config} {n : Nat} {table : LookupTable} {s : Cluster} :
    Cluster.new config n table = pure s → Reachable s
  | withBarrier {config : Config} {n : Nat} {table : LookupTable} {s : Cluster}
    (participants : UInt32) :
    Cluster.new config n table = pure s → Reachable (s.withBarrier participants)
  | load {s : Cluster} {i : Nat} {c c' : Core} {program : List Word}
    {result : Except ProgramTooLong Unit} :
    Reachable s → s.core i = .ok c → c.loadProgram program = .ok (c', result) →
    Reachable (s.setCore i c')
  | clock {s s' : Cluster} (m : Meas) : Reachable s → s.clock m = .ok s' → Reachable s'
  | reset {s s' : Cluster} : Reachable s → s.reset = .ok s' → Reachable s'

/-- What holds at the start and is kept by loading and by every tick holds in every reachable
    cluster. -/
theorem Reachable.invariant {P : Cluster → Prop} (hs : Reachable s)
    (start : ∀ {s}, s.Sound → s.AtStart → P s)
    (load : ∀ {s : Cluster} {k : Nat} {c : Core} {words : Array Word}, s.Sound →
      s.cores[k]? = some c → P s → P (s.setCore k (c.holding words)))
    (tick : ∀ {m s s'}, s.Sound → Tick m s s' → P s → P s') : s.Sound ∧ P s := by
  induction hs with
  | new h =>
    obtain ⟨hsound, hstart⟩ := sound_of_new h
    exact ⟨hsound, start hsound hstart⟩
  | withBarrier participants h =>
    obtain ⟨hsound, hstart⟩ := sound_of_new h
    obtain ⟨hsound, hstart⟩ := hsound.withBarrier hstart participants
    exact ⟨hsound, start hsound hstart⟩
  | load _ hc hl ih =>
    refine ⟨ih.1.load hc hl, ?_⟩
    obtain ⟨words, rfl, -⟩ := Core.exists_holding_of_load hl
    exact load ih.1 (Checked.get_eq_ok.mp hc) ih.2
  | clock m _ h ih =>
    have htick := tick_of_clock h
    exact ⟨htick.sound ih.1, tick ih.1 htick ih.2⟩
  | reset _ h ih =>
    obtain ⟨hsound, hstart⟩ := ih.1.reset h
    exact ⟨hsound, start hsound hstart⟩

theorem Reachable.sound (hs : Reachable s) : s.Sound :=
  (hs.invariant (P := fun _ => True) (fun _ _ => trivial) (fun _ _ h => h) fun _ _ h => h).1

/-! ### Runs -/

variable {meas : Nat → Meas} {n : Nat}

/-- A run of one more cycle, with that cycle at its end. -/
theorem clockN_succ_eq_ok : ∀ {n : Nat} {s : Cluster}, clockN meas (n + 1) s = .ok s' ↔
    ∃ s₁, clockN meas n s = .ok s₁ ∧ s₁.clock (meas (s₁.cycle + 1)) = .ok s'
  | 0, s => by
    simp only [clockN, Checked.bind_eq_ok, Except.ok.injEq, clockWith]
    constructor
    · rintro ⟨s₁, h, rfl⟩
      exact ⟨s, rfl, h⟩
    · rintro ⟨s₁, rfl, h⟩
      exact ⟨s', h, rfl⟩
  | n + 1, s => by
    constructor
    · intro h
      obtain ⟨s₁, h₁, h⟩ := Checked.bind_eq_ok.mp h
      obtain ⟨s₂, h₂, h⟩ := clockN_succ_eq_ok.mp h
      exact ⟨s₂, Checked.bind_eq_ok.mpr ⟨s₁, h₁, h₂⟩, h⟩
    · rintro ⟨s₂, h₂, h⟩
      obtain ⟨s₁, h₁, h₂⟩ := Checked.bind_eq_ok.mp h₂
      exact Checked.bind_eq_ok.mpr ⟨s₁, h₁, clockN_succ_eq_ok.mpr ⟨s₂, h₂, h⟩⟩

theorem Reachable.run (hs : Reachable s) : ∀ {n : Nat} {s' : Cluster},
    clockN meas n s = .ok s' → Reachable s' ∧ s'.cycle = s.cycle + n
  | 0, _, h => by
    obtain rfl := Except.ok.inj h
    exact ⟨hs, rfl⟩
  | n + 1, s', h => by
    obtain ⟨s₁, h₁, h⟩ := clockN_succ_eq_ok.mp h
    obtain ⟨hs₁, hcycle⟩ := hs.run h₁
    exact ⟨hs₁.clock _ h, by rw [(tick_of_clock h).cycle, hcycle, Nat.add_assoc]⟩

/-- A run goes on until the cycle count is exhausted. -/
theorem Reachable.exists_clockN (hs : Reachable s) (meas : Nat → Meas) :
    ∀ n : Nat, s.cycle + n < 2 ^ 64 → ∃ s', clockN meas n s = .ok s'
  | 0, _ => ⟨s, rfl⟩
  | n + 1, hlt => by
    obtain ⟨s₁, h₁⟩ := hs.exists_clockN meas n (by omega)
    obtain ⟨hs₁, hcycle⟩ := hs.run h₁
    obtain ⟨s', h⟩ := hs₁.sound.exists_clock (by omega) (meas (s₁.cycle + 1))
    exact ⟨s', clockN_succ_eq_ok.mpr ⟨s₁, h₁, h⟩⟩

/-- What no tick changes is the same all along a run. -/
theorem eq_of_clockN {α : Type} (f : Cluster → α) (hf : ∀ {m s s'}, Tick m s s' → f s' = f s)
    (h : clockN meas n s = .ok s') : f s' = f s := by
  induction n generalizing s' with
  | zero =>
    obtain rfl := Except.ok.inj h
    rfl
  | succ n ih =>
    obtain ⟨s₁, h₁, hclock⟩ := clockN_succ_eq_ok.mp h
    exact (hf (tick_of_clock hclock)).trans (ih h₁)

theorem length_of_clockN (h : clockN meas n s = .ok s') : s'.cores.length = s.cores.length :=
  eq_of_clockN (fun s => s.cores.length) Tick.length h

/-- A core is there in every cycle of a run or in none. -/
theorem exists_core_of_clockN {k : Nat} {s₁ : Cluster} (h₁ : clockN meas k s = .ok s₁)
    (h : clockN meas n s = .ok s') (hc : s₁.cores[i]? = some c) : ∃ c', s'.cores[i]? = some c' := by
  have hlt := (List.getElem?_eq_some_iff.mp hc).1
  rw [length_of_clockN h₁, ← length_of_clockN h] at hlt
  exact ⟨_, List.getElem?_eq_getElem hlt⟩

/-- Every earlier cycle of a run is there too. -/
theorem exists_clockN_of_le {k : Nat} (h : clockN meas n s = .ok s') (hk : k ≤ n) :
    ∃ s₁, clockN meas k s = .ok s₁ := by
  induction n generalizing s' with
  | zero =>
    obtain rfl : k = 0 := Nat.le_zero.mp hk
    exact ⟨s', h⟩
  | succ n ih =>
    obtain ⟨s₁, h₁, -⟩ := clockN_succ_eq_ok.mp h
    rcases Nat.le_succ_iff.mp hk with hk | rfl
    · exact ih h₁ hk
    · exact ⟨s', h⟩

end Cluster

end Sequencer
