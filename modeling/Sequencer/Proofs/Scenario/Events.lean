import Mathlib
import Sequencer.Proofs.Cluster.Observation
import Sequencer.Proofs.Scenario.Report

/-! The measurement events of a scenario.

    The lines of a cycle are the union of what its events drive, one word at a time
    (`testBit_valid`, `testBit_meas`). A run presents them on entering the cycle, and the
    distributor takes them on the edge that leaves it. No clock enters cycle 0, so its edge takes
    the lines of a distributor at rest, whatever its events are (`Builds.latches`). And as the two
    words are merged apart, the value of a line can come from an event that does not mark the line
    valid (`Leaks`). -/

namespace Sequencer

/-! ### Merged lines -/

namespace Meas

instance : RightCommutative merge where
  right_comm a b c := by
    simp only [merge, UInt32.or_assoc, UInt32.or_comm b.meas, UInt32.or_comm b.valid]

theorem testBit_foldl_merge (i : Nat) : ∀ (l : List Meas) (a : Meas),
    ((l.foldl merge a).valid.toNat.testBit i = true ↔
      a.valid.toNat.testBit i = true ∨ ∃ m ∈ l, m.valid.toNat.testBit i = true) ∧
    ((l.foldl merge a).meas.toNat.testBit i = true ↔
      a.meas.toNat.testBit i = true ∨ ∃ m ∈ l, m.meas.toNat.testBit i = true)
  | [], a => by simp
  | m :: l, a => by
    obtain ⟨hvalid, hmeas⟩ := testBit_foldl_merge i l (a.merge m)
    rw [List.foldl_cons, hvalid, hmeas]
    simp [merge, or_assoc]

theorem AgreeOn.symm {mask : UInt32} {a b : Meas} (h : AgreeOn mask a b) : AgreeOn mask b a :=
  ⟨h.1.symm, h.2.symm⟩

end Meas

namespace MeasEvent

/-- The event says that line `i` is valid. -/
def Marks (e : MeasEvent) (i : Nat) : Prop := e.lines.valid.toNat.testBit i = true

/-- The event drives line `i` to one. -/
def Raises (e : MeasEvent) (i : Nat) : Prop := e.lines.meas.toNat.testBit i = true

/-- The event without the values of lines that it does not mark. -/
def masked (e : MeasEvent) : MeasEvent :=
  { e with lines := ⟨e.lines.meas &&& e.lines.valid, e.lines.valid⟩ }

theorem masked_raises {e : MeasEvent} {i : Nat} : e.masked.Raises i ↔ e.Marks i ∧ e.Raises i := by
  simp [masked, Raises, Marks, and_comm]

end MeasEvent

namespace Cluster

variable {s s' t last : Cluster} {meas meas' : Nat → Meas} {m m' : Meas} {c n : Nat}
  {out : Array Strobe}

/-! ### What an edge takes -/

/-- The edge that ends cycle `c` of the run from `s` takes the lines `m`. -/
def Latches (meas : Nat → Meas) (s : Cluster) (c : Nat) (m : Meas) : Prop :=
  ∃ n t t', clockN meas n s = .ok t ∧ t.cycle = c ∧ t.clockWith meas = .ok t' ∧ t.lut.meas = m ∧
    t'.lut.round = t.lut.round.latch m

theorem Reachable.latches (hs : Reachable s) (h : clockN meas (n + 1) s = .ok s') :
    Latches meas s (s.cycle + n) (if n = 0 then s.lut.meas else meas (s.cycle + n)) := by
  obtain ⟨t, ht, hclock⟩ := clockN_succ_eq_ok.mp h
  have hcycle := (hs.run ht).2
  have hmeas : t.lut.meas = if n = 0 then s.lut.meas else meas (s.cycle + n) := by
    cases n with
    | zero => rw [← Except.ok.inj ht, if_pos rfl]
    | succ n => rw [meas_of_clockN ht, hcycle, if_neg n.succ_ne_zero]
  rw [← hmeas]
  exact ⟨n, t, s', ht, hcycle, hclock, rfl, (tick_of_clock hclock).round⟩

theorem Latches.eq (hs : Reachable s) (h : Latches meas s c m) (h' : Latches meas s c m') :
    m = m' := by
  obtain ⟨n, t, -, ht, hc, -, rfl, -⟩ := h
  obtain ⟨n', t', -, ht', hc', -, rfl, -⟩ := h'
  have hcycle := (hs.run ht).2
  have hcycle' := (hs.run ht').2
  obtain rfl : n = n' := by omega
  rw [Except.ok.inj (ht.symm.trans ht')]

/-! ### Runs that look the same -/

/-- Streams that agree where the cluster looks, from cycle 1 on, give the same strobes and the same
    last cycle. -/
theorem Reachable.runFrom_withMeas {mask : UInt32}
    (hagree : ∀ c, 1 ≤ c → Meas.AgreeOn mask (meas c) (meas' c))
    {limit : Nat} {acc : Array Strobe} {m₀ : Meas} (hs : Reachable s)
    (hobserved : s.observed = mask) (hagree₀ : Meas.AgreeOn mask s.lut.meas m₀)
    (h : runFrom meas limit acc s = .ok (out, last)) :
    ∃ m, runFrom meas' limit acc (s.withMeas m₀) = .ok (out, last.withMeas m) := by
  induction s using loop_induction meas limit generalizing acc m₀ with
  | stop s hstop =>
    rw [runFrom_of_stopped hstop] at h
    obtain ⟨rfl, rfl⟩ := Prod.mk.inj (Except.ok.inj h)
    exact ⟨m₀, runFrom_of_stopped hstop⟩
  | step s hgo ih =>
    rw [runFrom_of_pending hgo] at h
    obtain ⟨next, hnext, h⟩ := Checked.bind_eq_ok.mp h
    have htick := tick_of_clock hnext
    have hstep := hs.sound.clock_withMeas hnext (hobserved ▸ hagree₀)
      (hobserved ▸ hagree (s.cycle + 1) (by omega))
    obtain ⟨m, hm⟩ := ih next hnext (hs.clock _ hnext) ((observed_of_tick htick).trans hobserved)
      (htick.meas ▸ hagree (s.cycle + 1) (by omega)) h
    refine ⟨m, ?_⟩
    rw [runFrom_of_pending (show (s.withMeas m₀).Pending limit from hgo)]
    exact Checked.bind_eq_ok.mpr ⟨_, hstep, hm⟩

end Cluster

namespace Scenario

variable {s : Scenario} {cluster : Cluster} {r : Report} {es : List MeasEvent} {N c i : Nat}

/-! ### The lines of a cycle -/

theorem testBit_valid : (s.meas c).valid.toNat.testBit i = true ↔
    ∃ e ∈ s.measEvents, e.cycle = c ∧ e.Marks i := by
  rw [meas, (Meas.testBit_foldl_merge i _ _).1]
  simp [MeasEvent.Marks, and_assoc]

theorem testBit_meas : (s.meas c).meas.toNat.testBit i = true ↔
    ∃ e ∈ s.measEvents, e.cycle = c ∧ e.Raises i := by
  rw [meas, (Meas.testBit_foldl_merge i _ _).2]
  simp [MeasEvent.Raises, and_assoc]

/-- The scenario with other events. -/
def withEvents (s : Scenario) (es : List MeasEvent) : Scenario := { s with measEvents := es }

theorem meas_of_perm (h : es.Perm s.measEvents) : (s.withEvents es).meas = s.meas := by
  funext c
  exact ((h.filter _).map _).foldl_eq _

theorem meas_of_ne_zero (hc : 1 ≤ c) :
    (s.withEvents (s.measEvents.filter (·.cycle ≠ 0))).meas c = s.meas c := by
  rw [meas, meas, withEvents, List.filter_filter]
  congr 2
  refine List.filter_congr fun e _ => ?_
  rw [← Bool.decide_and]
  exact decide_eq_decide.mpr (by omega)

/-! ### Other events -/

theorem Builds.withEvents (h : s.Builds cluster) (es : List MeasEvent) :
    (s.withEvents es).Builds cluster := h

theorem Builds.run_withEvents (h : s.Builds cluster)
    (hagree : ∀ c, 1 ≤ c → Meas.AgreeOn cluster.observed (s.meas c) ((s.withEvents es).meas c))
    (hrun : s.run N cluster = .ok r) : (s.withEvents es).run N cluster = .ok r := by
  obtain ⟨out, last, hfrom, rfl⟩ := run_eq_ok.mp hrun
  obtain ⟨m, hrun'⟩ := Cluster.Reachable.runFrom_withMeas hagree h.reachable rfl (.refl _ _) hfrom
  exact run_eq_ok.mpr ⟨out, last.withMeas m, hrun', rfl⟩

theorem Builds.exists_run (h : s.Builds cluster) (hN : N < 2 ^ 64) :
    ∃ r, s.run N cluster = .ok r := by
  obtain ⟨out, last, hrun⟩ := h.reachable.exists_runFrom s.meas hN #[]
  exact ⟨_, run_eq_ok.mpr ⟨out, last, hrun, rfl⟩⟩

/-! ### Delivery -/

theorem Builds.lut_meas (h : s.Builds cluster) : cluster.lut.meas = {} := by
  obtain ⟨table, s₀, programs, hbuilt, -, hload⟩ := h.exists_programs
  obtain ⟨fresh, -, hrest⟩ := hbuilt.atRest
  rw [(hrest.loads.loadPrograms hload).eq, ← hrest.lut]
  rfl

theorem Builds.latches (h : s.Builds cluster) (hrun : s.run N cluster = .ok r)
    (hc : c < r.cycles) : Cluster.Latches s.meas cluster c (if c = 0 then {} else s.meas c) := by
  obtain ⟨out, last, hfrom, rfl⟩ := run_eq_ok.mp hrun
  have hrecorded := (Cluster.Recorded.start h.cycle).runFrom hfrom
  obtain ⟨t, ht⟩ := Cluster.exists_clockN_of_le hrecorded.run (Nat.succ_le_of_lt hc)
  have hlatches := h.reachable.latches ht
  rwa [h.cycle, h.lut_meas, Nat.zero_add] at hlatches

/-- Every edge of a run takes the lines that the events of its cycle drive, all of them and in
    whatever order they are listed, but for the edge of cycle 0, which takes none. So the edges of a
    run take what is scheduled exactly if nothing is scheduled for cycle 0, and a report is the same
    without the events of that cycle. -/
theorem events_reach_later_edges (h : s.Builds cluster) :
    (∀ N < 2 ^ 64, ∃ r, s.run N cluster = .ok r) ∧
    (∀ N r, s.run N cluster = .ok r →
      (∀ c < r.cycles, Cluster.Latches s.meas cluster c (if c = 0 then {} else s.meas c)) ∧
      ((∀ c < r.cycles, Cluster.Latches s.meas cluster c (s.meas c)) ↔
        r.cycles = 0 ∨ s.meas 0 = {}) ∧
      (s.withEvents (s.measEvents.filter (·.cycle ≠ 0))).run N cluster = .ok r) ∧
    (∀ c i, (s.meas c).valid.toNat.testBit i = true ↔
      ∃ e ∈ s.measEvents, e.cycle = c ∧ e.Marks i) ∧
    (∀ c i, (s.meas c).meas.toNat.testBit i = true ↔
      ∃ e ∈ s.measEvents, e.cycle = c ∧ e.Raises i) ∧
    ∀ es, es.Perm s.measEvents → (s.withEvents es).meas = s.meas := by
  refine ⟨fun N => h.exists_run, fun N r hrun => ⟨fun c => h.latches hrun, ⟨fun hall => ?_,
    fun hnone c hc => ?_⟩, ?_⟩, fun c i => testBit_valid, fun c i => testBit_meas, fun es =>
    meas_of_perm⟩
  · rcases Nat.eq_zero_or_pos r.cycles with hzero | hpos
    · exact .inl hzero
    · exact .inr ((hall 0 hpos).eq h.reachable (h.latches hrun hpos))
  · have hlatches := h.latches hrun hc
    rcases Nat.eq_zero_or_pos c with rfl | hpos
    · rwa [hnone.resolve_left (by omega)]
    · rwa [if_neg (by omega)] at hlatches
  · refine h.run_withEvents (fun c hc => ?_) hrun
    rw [meas_of_ne_zero hc]
    exact .refl _ _

/-- The later event comes first in the list, and the run waits for both. -/
theorem events_reach_later_edges_unsorted :
    ∃ s cluster r, Builds s cluster ∧ s.measEvents = [⟨8, 2, 2⟩, ⟨3, 1, 1⟩] ∧
      s.run 20 cluster = .ok r ∧ r.done = true ∧ r.cycles = 13 ∧
      ∀ c < 13, Cluster.Latches s.meas cluster c (s.meas c) := by
  have hbuild : ∃ s : Scenario, s.measEvents = [⟨8, 2, 2⟩, ⟨3, 1, 1⟩] ∧
      ∃ cluster w', Session.Yields (Session.build Files.storage s)
        ({}, .single "feedback" Narrow.tableText) cluster w' ∧
        (s.run 20 cluster).toOption.any (fun r => r.done && r.cycles == 13) = true :=
    ⟨{ config := .narrow, programs := ["feedback"],
       table := some ⟨2, 3, #[0, 0, 0, 1]⟩, measEvents := [⟨8, 2, 2⟩, ⟨3, 1, 1⟩] }, rfl,
      Session.exists_yields (by decide +kernel)⟩
  obtain ⟨s, hevents, cluster, w', hyields, hcheck⟩ := hbuild
  have h : Builds s cluster := ⟨_, _, _, _, hyields⟩
  obtain ⟨hexists, hlatches, -⟩ := events_reach_later_edges h
  obtain ⟨r, hrun⟩ := hexists 20 (by decide)
  rw [hrun] at hcheck
  simp only [Except.toOption, Option.any_some, Bool.and_eq_true, beq_iff_eq] at hcheck
  obtain ⟨hdone, hcycles⟩ := hcheck
  have hnone : s.meas 0 = {} := by
    rw [meas, hevents]
    rfl
  refine ⟨s, cluster, r, h, hevents, hrun, hdone, hcycles, ?_⟩
  rw [← hcycles]
  exact (hlatches 20 r hrun).2.1.mpr (.inr hnone)

/-- An event of cycle 0 is not among the lines of any edge, and the core waits in vain for a round
    that the same event in cycle 1 would complete. -/
theorem event_of_first_cycle_lost :
    ∃ s cluster r r', Builds s cluster ∧ s.measEvents = [⟨0, 1, 1⟩, ⟨8, 2, 2⟩] ∧
      s.run 20 cluster = .ok r ∧ 0 < r.cycles ∧ r.done = false ∧
      ¬ Cluster.Latches s.meas cluster 0 (s.meas 0) ∧
      (s.withEvents [⟨1, 1, 1⟩, ⟨8, 2, 2⟩]).run 20 cluster = .ok r' ∧ r'.done = true := by
  have hbuild : ∃ s : Scenario, s.measEvents = [⟨0, 1, 1⟩, ⟨8, 2, 2⟩] ∧
      ∃ cluster w', Session.Yields (Session.build Files.storage s)
        ({}, .single "feedback" Narrow.tableText) cluster w' ∧
        ((s.run 20 cluster).toOption.any (fun r => !r.done && r.cycles == 20) &&
          ((s.withEvents [⟨1, 1, 1⟩, ⟨8, 2, 2⟩]).run 20 cluster).toOption.any Report.done) = true :=
    ⟨{ config := .narrow, programs := ["feedback"],
       table := some ⟨2, 3, #[0, 0, 0, 1]⟩, measEvents := [⟨0, 1, 1⟩, ⟨8, 2, 2⟩] }, rfl,
      Session.exists_yields (by decide +kernel)⟩
  obtain ⟨s, hevents, cluster, w', hyields, hcheck⟩ := hbuild
  have h : Builds s cluster := ⟨_, _, _, _, hyields⟩
  obtain ⟨r, hrun⟩ := h.exists_run (N := 20) (by decide)
  obtain ⟨r', hrun'⟩ := (h.withEvents [⟨1, 1, 1⟩, ⟨8, 2, 2⟩]).exists_run (N := 20) (by decide)
  rw [hrun, hrun'] at hcheck
  simp only [Except.toOption, Option.any_some, Bool.and_eq_true, beq_iff_eq,
    Bool.not_eq_true'] at hcheck
  obtain ⟨⟨hdone, hcycles⟩, hdone'⟩ := hcheck
  refine ⟨s, cluster, r, r', h, hevents, hrun, by omega, hdone, fun hlatches => ?_, hrun', hdone'⟩
  have hmeas := hlatches.eq h.reachable (h.latches hrun (by omega))
  rw [meas, hevents] at hmeas
  exact absurd hmeas (by decide)

/-! ### Values and their valid bits -/

/-- The value of a valid line is that of the events that mark it. -/
def Paired (s : Scenario) (c i : Nat) : Prop :=
  (s.meas c).valid.toNat.testBit i = true → ((s.meas c).meas.toNat.testBit i = true ↔
    ∃ e ∈ s.measEvents, e.cycle = c ∧ e.Marks i ∧ e.Raises i)

/-- The events of cycle `c` that mark line `i` leave it at zero, and one that does not mark it has
    its bit set. -/
structure Leaks (s : Scenario) (c i : Nat) : Prop where
  marked : ∃ e ∈ s.measEvents, e.cycle = c ∧ e.Marks i
  raised : ∃ e ∈ s.measEvents, e.cycle = c ∧ e.Raises i
  apart : ∀ e ∈ s.measEvents, e.cycle = c → e.Marks i → ¬ e.Raises i

theorem paired_iff_not_leaks : s.Paired c i ↔ ¬ s.Leaks c i := by
  rw [Paired, testBit_valid, testBit_meas]
  constructor
  · intro hpaired hleaks
    obtain ⟨e, he, hc, hmarks, hraises⟩ := (hpaired hleaks.marked).mp hleaks.raised
    exact hleaks.apart e he hc hmarks hraises
  · intro hnot hmarked
    constructor
    · intro hraised
      by_contra hnone
      exact hnot ⟨hmarked, hraised, fun e he hc hmarks hraises =>
        hnone ⟨e, he, hc, hmarks, hraises⟩⟩
    · rintro ⟨e, he, hc, -, hraises⟩
      exact ⟨e, he, hc, hraises⟩

/-- The scenario whose events have no values on lines that they do not mark. -/
def masked (s : Scenario) : Scenario := s.withEvents (s.measEvents.map MeasEvent.masked)

theorem testBit_masked_valid : (s.masked.meas c).valid.toNat.testBit i = true ↔
    (s.meas c).valid.toNat.testBit i = true := by
  rw [testBit_valid, testBit_valid, masked, withEvents]
  simp [MeasEvent.masked, MeasEvent.Marks]

theorem testBit_masked_meas : (s.masked.meas c).meas.toNat.testBit i = true ↔
    ∃ e ∈ s.measEvents, e.cycle = c ∧ e.Marks i ∧ e.Raises i := by
  rw [testBit_meas, masked, withEvents]
  simp only [List.mem_map, exists_exists_and_eq_and, MeasEvent.masked_raises]
  rfl

theorem agreeOn_masked {mask : UInt32}
    (h : ∀ i, mask.toNat.testBit i = true → ¬ s.Leaks c i) :
    Meas.AgreeOn mask (s.meas c) (s.masked.meas c) := by
  refine Meas.agreeOn_iff.mpr fun i hi => ⟨Bool.eq_iff_iff.mpr testBit_masked_valid.symm, ?_⟩
  intro hvalid
  rw [Bool.eq_iff_iff, testBit_masked_meas]
  exact paired_iff_not_leaks.mpr (h i hi) hvalid

/-- A line is valid if some event of the cycle marks it, and its value is one if some event of the
    cycle has its bit set, whether that event marks it or not. So the value is that of the marking
    events except where a bit leaks, and where none leaks into a line that the cluster looks at the
    report is that of the masked events. -/
theorem merged_value_of_all_events (s : Scenario) :
    (∀ c i, (s.meas c).valid.toNat.testBit i = true ↔
      ∃ e ∈ s.measEvents, e.cycle = c ∧ e.Marks i) ∧
    (∀ c i, (s.meas c).meas.toNat.testBit i = true ↔
      ∃ e ∈ s.measEvents, e.cycle = c ∧ e.Raises i) ∧
    (∀ c i, s.Paired c i ↔ ¬ s.Leaks c i) ∧
    ∀ cluster, s.Builds cluster → s.masked.Builds cluster ∧
      (∀ N < 2 ^ 64, ∃ r r', s.run N cluster = .ok r ∧ s.masked.run N cluster = .ok r') ∧
      ((∀ c, 1 ≤ c → ∀ i, cluster.observed.toNat.testBit i = true → ¬ s.Leaks c i) →
        ∀ N r, s.masked.run N cluster = .ok r ↔ s.run N cluster = .ok r) := by
  refine ⟨fun c i => testBit_valid, fun c i => testBit_meas, fun c i => paired_iff_not_leaks,
    fun cluster h => ?_⟩
  have hmasked : s.masked.Builds cluster := h.withEvents _
  refine ⟨hmasked, fun N hN => ?_, fun hnone N r => ⟨?_, ?_⟩⟩
  · obtain ⟨r, hrun⟩ := h.exists_run hN
    obtain ⟨r', hrun'⟩ := hmasked.exists_run hN
    exact ⟨r, r', hrun, hrun'⟩
  · -- the events of `s` are other events of the masked scenario
    intro hrun
    exact (hmasked.run_withEvents (fun c hc => (agreeOn_masked (hnone c hc)).symm) hrun :)
  · exact h.run_withEvents fun c hc => agreeOn_masked (hnone c hc)

/-- Two events mark line 0, and one of them has a bit set on a line that neither marks. The core
    reads a one, masked or not. -/
theorem merged_value_of_all_events_twice :
    ∃ s cluster r, Builds s cluster ∧ s.measEvents = [⟨6, 3, 1⟩, ⟨6, 0, 1⟩] ∧
      s.masked.measEvents = [⟨6, 1, 1⟩, ⟨6, 0, 1⟩] ∧ (∀ c i, s.Paired c i) ∧
      s.run 20 cluster = .ok r ∧ s.masked.run 20 cluster = .ok r ∧
      r.cores.map (·.registers.take 2) = [[0, 1]] := by
  have hbuild : ∃ s : Scenario, s.measEvents = [⟨6, 3, 1⟩, ⟨6, 0, 1⟩] ∧
      ∃ cluster w', Session.Yields (Session.build Files.storage s)
        ({}, .single "feedback" Narrow.lineText) cluster w' ∧
        (s.run 20 cluster).toOption.any
          (fun r => r.cores.map (·.registers.take 2) == [[0, 1]]) = true :=
    ⟨{ config := .narrow, programs := ["feedback"], measEvents := [⟨6, 3, 1⟩, ⟨6, 0, 1⟩] }, rfl,
      Session.exists_yields (by decide +kernel)⟩
  obtain ⟨s, hevents, cluster, w', hyields, hcheck⟩ := hbuild
  have h : Builds s cluster := ⟨_, _, _, _, hyields⟩
  have hnone : ∀ c i, ¬ s.Leaks c i := by
    rintro c i ⟨⟨e, he, hc, hmarks⟩, -, hapart⟩
    rw [hevents] at he hapart
    have hone : e.cycle = 6 ∧ e.lines.valid = 1 := by
      rw [List.mem_pair] at he
      rcases he with rfl | rfl <;> exact ⟨rfl, rfl⟩
    rw [MeasEvent.Marks, hone.2] at hmarks
    obtain rfl := Nat.testBit_one_eq_true_iff_self_eq_zero.mp hmarks
    exact hapart ⟨6, 3, 1⟩ List.mem_cons_self (hone.1.symm.trans hc) rfl rfl
  obtain ⟨-, -, hpaired, hreports⟩ := merged_value_of_all_events s
  obtain ⟨-, hexists, hsame⟩ := hreports cluster h
  obtain ⟨r, -, hrun, -⟩ := hexists 20 (by decide)
  rw [hrun] at hcheck
  refine ⟨s, cluster, r, h, hevents, ?_, fun c i => (hpaired c i).mpr (hnone c i), hrun,
    (hsame (fun c _ i _ => hnone c i) 20 r).mpr hrun, beq_iff_eq.mp hcheck⟩
  rw [masked, withEvents, hevents]
  rfl

/-- One event marks line 0 and leaves it at zero, another has its bit set and does not mark it. The
    core reads a one, and a zero from the masked events. -/
theorem value_of_unmarked_event_read :
    ∃ s cluster r r', Builds s cluster ∧ s.measEvents = [⟨6, 1, 0⟩, ⟨6, 0, 1⟩] ∧
      ¬ s.Paired 6 0 ∧ s.run 20 cluster = .ok r ∧ s.masked.run 20 cluster = .ok r' ∧
      r.cores.map (·.registers.take 2) = [[0, 1]] ∧
      r'.cores.map (·.registers.take 2) = [[0, 0]] := by
  have hbuild : ∃ s : Scenario, s.measEvents = [⟨6, 1, 0⟩, ⟨6, 0, 1⟩] ∧
      ∃ cluster w', Session.Yields (Session.build Files.storage s)
        ({}, .single "feedback" Narrow.lineText) cluster w' ∧
        ((s.run 20 cluster).toOption.any
            (fun r => r.cores.map (·.registers.take 2) == [[0, 1]]) &&
          (s.masked.run 20 cluster).toOption.any
            (fun r => r.cores.map (·.registers.take 2) == [[0, 0]])) = true :=
    ⟨{ config := .narrow, programs := ["feedback"], measEvents := [⟨6, 1, 0⟩, ⟨6, 0, 1⟩] }, rfl,
      Session.exists_yields (by decide +kernel)⟩
  obtain ⟨s, hevents, cluster, w', hyields, hcheck⟩ := hbuild
  have h : Builds s cluster := ⟨_, _, _, _, hyields⟩
  have hmasked : s.masked.Builds cluster := h.withEvents _
  obtain ⟨r, hrun⟩ := h.exists_run (N := 20) (by decide)
  obtain ⟨r', hrun'⟩ := hmasked.exists_run (N := 20) (by decide)
  rw [hrun, hrun'] at hcheck
  simp only [Except.toOption, Option.any_some, Bool.and_eq_true, beq_iff_eq] at hcheck
  have hleaks : s.Leaks 6 0 := by
    constructor
    all_goals
      rw [hevents]
      simp [MeasEvent.Marks, MeasEvent.Raises]
  exact ⟨s, cluster, r, r', h, hevents, fun hpaired => paired_iff_not_leaks.mp hpaired hleaks, hrun,
    hrun', hcheck.1, hcheck.2⟩

end Scenario

end Sequencer
