import Mathlib
import Sequencer.Proofs.Cluster.Isolation
import Sequencer.Proofs.Core.Terminal

/-! The cycle in which the last core is done.

    A core that is done stays done, and the cycle since when it is done is on record. So one look at
    the record of a later cycle says for every earlier one whether the core was done in it
    (`Finishes.done_iff`), and all cores are done from the latest of these cycles on
    (`FinishedAt.done_iff`). The loop looks at the current cycle only, and stops there. -/

namespace Sequencer

namespace Core

variable {c c' : Core} {i : Inputs} {k : Nat}

/-! ### The record of one core -/

/-- A cycle is on record exactly if the core is done, and it is not one to come. -/
structure Dated (c : Core) : Prop where
  isSome : c.doneCycle.isSome = c.done
  le_cycle : ∀ {k : Nat}, c.doneCycle = some k → k ≤ c.cycle

theorem Dated.of_none (hdone : c.done = false) (hnone : c.doneCycle = none) : c.Dated := by
  refine ⟨by rw [hnone, hdone]; rfl, fun hk => ?_⟩
  rw [hnone] at hk
  cases hk

theorem Dated.exists_doneCycle (h : c.Dated) (hdone : c.done = true) :
    ∃ k, c.doneCycle = some k :=
  Option.isSome_iff_exists.mp (h.isSome.trans hdone)

theorem Tick.done (h : Tick i c c') (hc : c.Sound) (hdone : c.done = true) : c'.done = true := by
  obtain ⟨hs, hop⟩ := hc.hasSettled.done_iff.mp hdone
  refine (h.sound hc).hasSettled.done_iff.mpr ⟨?_, ?_⟩
  · rw [h.state, hc.settled.control, hs, hop]
    rfl
  · rw [h.operation_of_ne hc (by rw [hs]; decide), hop]

theorem doneCycle_of_some (h : (c.drive i).clock = .ok c') (hk : c.doneCycle = some k) :
    c'.doneCycle = some k := by
  have hrecord := (Continues.of_clock h).doneCycle
  rwa [hk, Option.isNone_some, Bool.and_false, if_neg Bool.false_ne_true] at hrecord

theorem doneCycle_of_none (h : (c.drive i).clock = .ok c') (hnone : c.doneCycle = none) :
    c'.doneCycle = if c'.done then some c'.cycle else none := by
  have hrecord := (Continues.of_clock h).doneCycle
  rwa [hnone, Option.isNone_none, Bool.and_true] at hrecord

theorem eq_cycle_of_none (h : (c.drive i).clock = .ok c') (hnone : c.doneCycle = none)
    (hk : c'.doneCycle = some k) : k = c'.cycle := by
  rw [doneCycle_of_none h hnone, Option.ite_none_right_eq_some, Option.some.injEq] at hk
  exact hk.2.symm

theorem Dated.clock (h : c.Dated) (hc : c.Sound) (hclock : (c.drive i).clock = .ok c') :
    c'.Dated := by
  have htick := tick_of_clock hclock
  cases hfirst : c.doneCycle with
  | none =>
    refine ⟨?_, fun hk => (eq_cycle_of_none hclock hfirst hk).le⟩
    rw [doneCycle_of_none hclock hfirst]
    cases c'.done <;> rfl
  | some w =>
    have hkept := doneCycle_of_some hclock hfirst
    have hdone : c.done = true := by
      rw [← h.isSome, hfirst]
      rfl
    refine ⟨?_, fun hk => ?_⟩
    · rw [hkept, htick.done hc hdone]
      rfl
    · have hle := h.le_cycle (hfirst.trans (hkept.symm.trans hk))
      rw [htick.cycle]
      omega

end Core

namespace Cluster

variable {s s' t last : Cluster} {meas : Nat → Meas} {i j k n limit : Nat} {c d : Core}

/-! ### The records of a cluster -/

theorem dated_of_new {config : Config} {table : LookupTable}
    (h : Cluster.new config n table = pure s) : ∀ c ∈ s.cores, c.Dated := by
  obtain ⟨-, core, lut, participants, hcore, -, rfl⟩ := new_eq_pure h
  intro c hc
  obtain rfl := List.eq_of_mem_replicate hc
  obtain ⟨hdone, hnone⟩ := (Core.Start.new hcore).doneCycle
  exact .of_none hdone hnone

theorem dated_of_reset (h : s.reset = .ok s') : ∀ c ∈ s'.cores, c.Dated := by
  obtain ⟨cs, hcs, hp⟩ := reset_eq_ok.mp h
  obtain ⟨rs, cs', -, hcs', rfl⟩ := propagate_eq_ok.mp hp
  intro c' hc'
  obtain ⟨c₁, hc₁, i, hsettle⟩ := mem_propagateCores hcs' hc'
  obtain ⟨c, -, hreset⟩ := Checked.mem_mapM hcs hc₁
  -- both settlings see a core that fetches and has nothing on record
  obtain ⟨-, hnone⟩ := Core.doneCycle_of_atStart hreset rfl rfl
  have hstate : c₁.state = .fetchWait := by
    obtain ⟨op, x, y, -, -, -, rfl⟩ := Core.propagate_eq_ok.mp hreset
    rfl
  obtain ⟨hdone, hnone⟩ := Core.doneCycle_of_atStart hsettle hstate hnone
  exact .of_none hdone hnone

theorem Reachable.dated (hs : Reachable s) : ∀ c ∈ s.cores, c.Dated := by
  induction hs with
  | new h => exact dated_of_new h
  | withBarrier participants h => exact (dated_of_new h :)
  | load _ hk hl ih =>
    obtain ⟨words, rfl, -⟩ := Core.exists_holding_of_load hl
    intro d hd
    rcases List.mem_or_eq_of_mem_set hd with hd | rfl
    · exact ih d hd
    · exact { ih _ (List.mem_of_getElem? (Checked.get_eq_ok.mp hk)) with }
  | clock m hs h ih =>
    intro c' hc'
    obtain ⟨c, hc, i, hclock⟩ := mem_clock h hc'
    obtain ⟨k, hk⟩ := List.mem_iff_getElem?.mp hc
    exact (ih c hc).clock (hs.sound.core hk).1 hclock
  | reset _ h => exact dated_of_reset h

/-- What is on record stays there. What comes later is a later cycle. -/
theorem Reachable.doneCycle_run (hs : Reachable s) (hc : s.cores[i]? = some c) :
    ∀ {n : Nat} {t : Cluster} {d : Core}, clockN meas n s = .ok t → t.cores[i]? = some d →
    (c.doneCycle = some k → d.doneCycle = some k) ∧
      (c.doneCycle = none → d.doneCycle = some k → s.cycle < k)
  | 0, t, d, hrun, hd => by
    obtain rfl := Except.ok.inj hrun
    obtain rfl := Option.some.inj (hc.symm.trans hd)
    refine ⟨id, fun hnone hk => ?_⟩
    rw [hnone] at hk
    cases hk
  | n + 1, t, d, hrun, hd => by
    obtain ⟨u, hu, hclock⟩ := clockN_succ_eq_ok.mp hrun
    obtain ⟨e, he⟩ := (tick_of_clock hclock).exists_core hd
    obtain ⟨r, ready, d', -, -, hd', hcore⟩ := clock_core hclock he
    obtain rfl := Option.some.inj (hd.symm.trans hd')
    obtain ⟨hkeep, hlater⟩ := hs.doneCycle_run hc hu he
    refine ⟨fun hk => Core.doneCycle_of_some hcore (hkeep hk), fun hnone hk => ?_⟩
    cases hfirst : e.doneCycle with
    | none =>
      obtain ⟨hreach, hcycle⟩ := hs.run hrun
      rw [Core.eq_cycle_of_none hcore hfirst hk, (hreach.sound.core hd).2, hcycle]
      omega
    | some w =>
      obtain rfl := Option.some.inj (hk.symm.trans (Core.doneCycle_of_some hcore hfirst))
      exact hlater hnone hfirst

/-- A run in two parts. -/
theorem clockN_add : ∀ (j n : Nat) (s : Cluster),
    clockN meas (j + n) s = clockN meas j s >>= clockN meas n
  | 0, n, s => by
    rw [Nat.zero_add]
    rfl
  | j + 1, n, s => by
    rw [Nat.add_right_comm, clockN, clockN]
    cases s.clockWith meas with
    | error e => rfl
    | ok next => exact clockN_add j n next

theorem clockN_of_le (h : clockN meas n s = .ok s') (hj : clockN meas j s = .ok t) (hle : j ≤ n) :
    clockN meas (n - j) t = .ok s' := by
  rw [← Nat.add_sub_cancel' hle, clockN_add, hj] at h
  exact h

/-! ### Finishing -/

/-- In some cycle of the run from `s` core `i` is done, and it is so since cycle `k`. -/
def Finishes (meas : Nat → Meas) (s : Cluster) (i k : Nat) : Prop :=
  ∃ n t c, clockN meas n s = .ok t ∧ t.core i = .ok c ∧ c.done = true ∧ c.doneCycle = some k

/-- Every core is done at some time in the run from `s`, and `n` is the latest of the cycles since
    when they are, or that of `s` if it is later. -/
structure FinishedAt (meas : Nat → Meas) (s : Cluster) (n : Nat) : Prop where
  all : ∀ i < s.cores.length, ∃ k, Finishes meas s i k
  last : IsGreatest (insert s.cycle {k | ∃ i, Finishes meas s i k}) n

theorem Finishes.exists_core (h : Finishes meas s i k) (ht : clockN meas j s = .ok t) :
    ∃ c, t.cores[i]? = some c := by
  obtain ⟨n, u, d, hu, hd, -⟩ := h
  exact exists_core_of_clockN hu ht (Checked.get_eq_ok.mp hd)

theorem Reachable.finishes_of_done (hs : Reachable s) (ht : clockN meas n s = .ok t)
    (hc : t.cores[i]? = some c) (hdone : c.done = true) : ∃ k, Finishes meas s i k := by
  obtain ⟨k, hk⟩ := ((hs.run ht).1.dated c (List.mem_of_getElem? hc)).exists_doneCycle hdone
  exact ⟨k, n, t, c, ht, Checked.get_eq_ok.mpr hc, hdone, hk⟩

/-- A core that finishes is done from the cycle on record on, and in no cycle before. -/
theorem Finishes.done_iff (h : Finishes meas s i k) (hs : Reachable s)
    (ht : clockN meas j s = .ok t) (hc : t.cores[i]? = some c) : c.done = true ↔ k ≤ t.cycle := by
  obtain ⟨n, u, d, hu, hd, -, hk⟩ := h
  have hd := Checked.get_eq_ok.mp hd
  obtain ⟨hreach, hcycle⟩ := hs.run ht
  obtain ⟨hreach', hcycle'⟩ := hs.run hu
  have hdated := hreach.dated c (List.mem_of_getElem? hc)
  rcases le_total j n with hle | hle
  · have hrun := clockN_of_le hu ht hle
    constructor
    · intro hdone
      obtain ⟨w, hw⟩ := hdated.exists_doneCycle hdone
      obtain rfl := Option.some.inj (hk.symm.trans ((hreach.doneCycle_run hc hrun hd).1 hw))
      rw [← (hreach.sound.core hc).2]
      exact hdated.le_cycle hw
    · intro hkt
      rw [← hdated.isSome, Option.isSome_iff_ne_none]
      intro hnone
      have hlt := (hreach.doneCycle_run hc hrun hd).2 hnone hk
      omega
  · have hw := (hreach'.doneCycle_run hd (clockN_of_le ht hu hle) hc).1 hk
    have hle' := (hreach'.dated d (List.mem_of_getElem? hd)).le_cycle hk
    rw [(hreach'.sound.core hd).2] at hle'
    rw [← hdated.isSome, hw]
    exact ⟨fun _ => by omega, fun _ => rfl⟩

theorem FinishedAt.cycle_le (h : FinishedAt meas s n) : s.cycle ≤ n :=
  h.last.2 (Set.mem_insert _ _)

/-- All cores are done from that cycle on, and in no cycle before. -/
theorem FinishedAt.done_iff (h : FinishedAt meas s n) (hs : Reachable s)
    (ht : clockN meas j s = .ok t) : t.done = true ↔ n ≤ t.cycle := by
  have hcycle := (hs.run ht).2
  rw [Cluster.done, List.all_eq_true]
  constructor
  · intro hall
    rcases h.last.1 with rfl | ⟨i, hi⟩
    · omega
    · obtain ⟨c, hc⟩ := hi.exists_core ht
      exact (hi.done_iff hs ht hc).mp (hall c (List.mem_of_getElem? hc))
  · intro hle c hc
    obtain ⟨i, hi⟩ := List.mem_iff_getElem?.mp hc
    have hlt := (List.getElem?_eq_some_iff.mp hi).1
    rw [length_of_clockN ht] at hlt
    obtain ⟨k, hk⟩ := h.all i hlt
    have hkn : k ≤ n := h.last.2 (Set.mem_insert_of_mem _ ⟨i, hk⟩)
    exact (hk.done_iff hs ht hi).mpr (hkn.trans hle)

theorem Reachable.exists_finishedAt (hs : Reachable s) (ht : clockN meas j s = .ok t)
    (hdone : t.done = true) : ∃ n, FinishedAt meas s n := by
  have hcore {i : Nat} {c : Core} (hc : t.cores[i]? = some c) : c.done = true :=
    List.all_eq_true.mp hdone c (List.mem_of_getElem? hc)
  have hbound : BddAbove (insert s.cycle {k | ∃ i, Finishes meas s i k}) := by
    refine ⟨t.cycle, ?_⟩
    rintro k (rfl | ⟨i, hk⟩)
    · rw [(hs.run ht).2]
      omega
    · obtain ⟨c, hc⟩ := hk.exists_core ht
      exact (hk.done_iff hs ht hc).mp (hcore hc)
  refine ⟨_, fun i hi => ?_, Nat.sSup_mem (Set.insert_nonempty _ _) hbound, fun k hk =>
    le_csSup hbound hk⟩
  rw [← length_of_clockN ht] at hi
  have hc := List.getElem?_eq_getElem hi
  exact hs.finishes_of_done ht hc (hcore hc)

theorem FinishedAt.exists_clockN (h : FinishedAt meas s n) (hs : Reachable s) :
    ∃ t, clockN meas (n - s.cycle) s = .ok t := by
  rcases h.last.1 with rfl | ⟨i, w, u, d, hu, hd, -, hk⟩
  · exact ⟨s, by rw [Nat.sub_self]; rfl⟩
  · have hd := Checked.get_eq_ok.mp hd
    obtain ⟨hreach, hcycle⟩ := hs.run hu
    have hle := (hreach.dated d (List.mem_of_getElem? hd)).le_cycle hk
    rw [(hreach.sound.core hd).2] at hle
    exact exists_clockN_of_le hu (by omega)

/-! ### The loop -/

/-- The loop stops after the first clock that leaves all cores done, or at the limit. -/
theorem clockWhileRunning_eq_ok : ∀ {limit : Nat} {s : Cluster},
    clockWhileRunning meas limit s = .ok last ↔ ∃ k ≤ limit, clockN meas k s = .ok last ∧
      (∀ j < k, ∀ t, clockN meas j s = .ok t → t.done = false) ∧ (k = limit ∨ last.done = true)
  | 0, s => by
    constructor
    · intro h
      exact ⟨0, le_rfl, h, fun j hj => absurd hj j.not_lt_zero, .inl rfl⟩
    · rintro ⟨k, hk, h, -⟩
      obtain rfl := Nat.le_zero.mp hk
      exact h
  | limit + 1, s => by
    rw [clockWhileRunning]
    cases hdone : s.done with
    | true =>
      rw [if_pos rfl]
      constructor
      · intro h
        obtain rfl : s = last := Except.ok.inj h
        exact ⟨0, Nat.zero_le _, rfl, fun j hj => absurd hj j.not_lt_zero, .inr hdone⟩
      · rintro ⟨k, -, h, hbefore, -⟩
        cases k with
        | zero => exact h
        | succ k => exact absurd (hdone.symm.trans (hbefore 0 k.succ_pos s rfl)) (by decide)
    | false =>
      rw [if_neg Bool.false_ne_true, Checked.bind_eq_ok]
      constructor
      · rintro ⟨next, hnext, h⟩
        obtain ⟨k, hk, hrun, hbefore, hstop⟩ := clockWhileRunning_eq_ok.mp h
        refine ⟨k + 1, by omega, Checked.bind_eq_ok.mpr ⟨next, hnext, hrun⟩, fun j hj t ht => ?_,
          hstop.imp_left fun heq => by rw [heq]⟩
        cases j with
        | zero => exact Except.ok.inj ht ▸ hdone
        | succ j =>
          obtain ⟨next', hnext', ht⟩ := Checked.bind_eq_ok.mp ht
          obtain rfl := Except.ok.inj (hnext.symm.trans hnext')
          exact hbefore j (by omega) t ht
      · rintro ⟨k, hk, h, hbefore, hstop⟩
        cases k with
        | zero =>
          obtain rfl : s = last := Except.ok.inj h
          rcases hstop with hstop | hstop
          · omega
          · exact absurd (hdone.symm.trans hstop) (by decide)
        | succ k =>
          obtain ⟨next, hnext, hrun⟩ := Checked.bind_eq_ok.mp h
          refine ⟨next, hnext, clockWhileRunning_eq_ok.mpr ⟨k, by omega, hrun, fun j hj t ht => ?_,
            hstop.imp_left Nat.succ.inj⟩⟩
          exact hbefore (j + 1) (by omega) t (Checked.bind_eq_ok.mpr ⟨next, hnext, ht⟩)

/-- A run in which some core is at work until the limit is the plain run, fault or not. -/
theorem clockWhileRunning_of_running : ∀ {limit : Nat} {s : Cluster},
    (∀ j < limit, ∀ t, clockN meas j s = .ok t → t.done = false) →
      clockWhileRunning meas limit s = clockN meas limit s
  | 0, s, _ => rfl
  | limit + 1, s, h => by
    rw [clockWhileRunning, clockN, h 0 limit.succ_pos s rfl, if_neg Bool.false_ne_true]
    cases hnext : s.clockWith meas with
    | error e => rfl
    | ok next =>
      refine clockWhileRunning_of_running fun j hj t ht => h (j + 1) (by omega) t ?_
      exact Checked.bind_eq_ok.mpr ⟨next, hnext, ht⟩

theorem clockUntilDone_eq_ok {count : Option Nat} :
    clockUntilDone limit meas s = .ok (last, count) ↔
      clockWhileRunning meas limit s = .ok last ∧
        count = if last.done then some last.cycle else none := by
  rw [clockUntilDone, Checked.bind_eq_ok]
  constructor
  · rintro ⟨t, ht, h⟩
    obtain ⟨rfl, rfl⟩ := Prod.mk.inj (Except.ok.inj h)
    exact ⟨ht, rfl⟩
  · rintro ⟨ht, rfl⟩
    exact ⟨last, ht, rfl⟩

theorem Reachable.clockUntilDone_eq_some (hs : Reachable s) :
    clockUntilDone limit meas s = .ok (last, some n) ↔
      FinishedAt meas s n ∧ n ≤ s.cycle + limit ∧ clockN meas (n - s.cycle) s = .ok last := by
  rw [clockUntilDone_eq_ok, clockWhileRunning_eq_ok]
  constructor
  · rintro ⟨⟨k, hk, hrun, hbefore, -⟩, hcount⟩
    obtain ⟨hdone, hn⟩ := Option.ite_none_right_eq_some.mp hcount.symm
    obtain rfl := Option.some.inj hn
    have hcycle := (hs.run hrun).2
    obtain ⟨n, hfinished⟩ := hs.exists_finishedAt hrun hdone
    have hle := (hfinished.done_iff hs hrun).mp hdone
    have hstart := hfinished.cycle_le
    -- the cycle in which all are done is not one that the loop went past
    obtain rfl : n = last.cycle := by
      by_contra hne
      obtain ⟨t, ht⟩ := exists_clockN_of_le hrun (show n - s.cycle ≤ k by omega)
      have hlate := (hfinished.done_iff hs ht).not.mp
        (by rw [hbefore _ (by omega) t ht]; decide)
      rw [(hs.run ht).2] at hlate
      omega
    refine ⟨hfinished, by omega, ?_⟩
    rw [hcycle, Nat.add_sub_cancel_left]
    exact hrun
  · rintro ⟨hfinished, hle, hrun⟩
    have hstart := hfinished.cycle_le
    have hcycle : last.cycle = n := by
      rw [(hs.run hrun).2]
      omega
    have hdone := (hfinished.done_iff hs hrun).mpr hcycle.ge
    refine ⟨⟨n - s.cycle, by omega, hrun, fun j hj t ht => ?_, .inr hdone⟩, ?_⟩
    · rw [Bool.eq_false_iff, ne_eq, hfinished.done_iff hs ht, (hs.run ht).2]
      omega
    · rw [if_pos hdone, hcycle]

theorem Reachable.done_of_late (hs : Reachable s)
    (hlate : ∀ n, FinishedAt meas s n → s.cycle + limit < n) (hj : j ≤ limit)
    (ht : clockN meas j s = .ok t) : t.done = false := by
  by_contra hdone
  rw [Bool.not_eq_false] at hdone
  obtain ⟨n, hn⟩ := hs.exists_finishedAt ht hdone
  have hle := (hn.done_iff hs ht).mp hdone
  have hlt := hlate n hn
  rw [(hs.run ht).2] at hle
  omega

theorem Reachable.clockUntilDone_of_late (hs : Reachable s)
    (hlate : ∀ n, FinishedAt meas s n → s.cycle + limit < n) :
    clockUntilDone limit meas s = (clockN meas limit s).map fun t => (t, none) := by
  rw [clockUntilDone, clockWhileRunning_of_running fun j hj t => hs.done_of_late hlate hj.le]
  cases hrun : clockN meas limit s with
  | error e => rfl
  | ok t =>
    change Except.ok (t, if t.done then some t.cycle else none) = Except.ok (t, none)
    rw [hs.done_of_late hlate le_rfl hrun]
    rfl

/-- The loop finds the cycle in which the last core is done, if the limit reaches it, and leaves the
    cluster of that cycle. Otherwise it is `limit` clocks. -/
theorem clockUntilDone_stops_at_last_done (hs : Reachable s) (meas : Nat → Meas) (limit : Nat) :
    (∀ n, (∃ last, clockUntilDone limit meas s = .ok (last, some n)) ↔
      FinishedAt meas s n ∧ n ≤ s.cycle + limit) ∧
    (∀ last n, clockUntilDone limit meas s = .ok (last, some n) →
      clockN meas (n - s.cycle) s = .ok last) ∧
    ((¬ ∃ n ≤ s.cycle + limit, FinishedAt meas s n) →
      clockUntilDone limit meas s = (clockN meas limit s).map fun t => (t, none)) ∧
    (s.cycle + limit < 2 ^ 64 → ∃ t, clockN meas limit s = .ok t) ∧
    ∀ k t, clockN meas k s = .ok t → t.cycle = s.cycle + k ∧ ∀ c ∈ t.cores, c.cycle = t.cycle := by
  refine ⟨fun n => ?_, fun last n h => ?_, fun hlate => ?_, hs.exists_clockN meas limit,
    fun k t ht => ⟨(hs.run ht).2, fun c hc => ?_⟩⟩
  · constructor
    · rintro ⟨last, h⟩
      obtain ⟨hfinished, hle, -⟩ := hs.clockUntilDone_eq_some.mp h
      exact ⟨hfinished, hle⟩
    · rintro ⟨hfinished, hle⟩
      obtain ⟨last, hrun⟩ := hfinished.exists_clockN hs
      exact ⟨last, hs.clockUntilDone_eq_some.mpr ⟨hfinished, hle, hrun⟩⟩
  · exact (hs.clockUntilDone_eq_some.mp h).2.2
  · refine hs.clockUntilDone_of_late fun n hn => ?_
    by_contra hle
    exact hlate ⟨n, not_lt.mp hle, hn⟩
  · obtain ⟨i, hi⟩ := List.mem_iff_getElem?.mp hc
    exact ((hs.run ht).1.sound.core hi).2

/-- In cycle 3 one core is done and the other has an instruction left. Three clocks are enough, and
    two are not. -/
theorem clockUntilDone_stops_at_second_core :
    ∃ s last late, Reachable s ∧ s.cycle = 3 ∧ s.cores.map Core.done = [true, false] ∧
      FinishedAt (fun _ => {}) s 6 ∧
      clockUntilDone 3 (fun _ => {}) s = .ok (last, some 6) ∧
      clockN (fun _ => {}) 3 s = .ok last ∧
      clockUntilDone 2 (fun _ => {}) s = .ok (late, none) ∧
      clockN (fun _ => {}) 2 s = .ok late := by
  have hstart : ∃ s₀ s₁ s last late, Cluster.new .narrow 2 .echo = pure s₀ ∧
      s₀.loadPrograms 0 [[Narrow.done], [Narrow.addNine, Narrow.done]] = pure s₁ ∧
      clockN (fun _ => {}) 3 s₁ = .ok s ∧ s.cycle = 3 ∧ s.cores.map Core.done = [true, false] ∧
      clockUntilDone 3 (fun _ => {}) s = .ok (last, some 6) ∧
      clockN (fun _ => {}) 2 s = .ok late :=
    ⟨_, _, _, _, _, rfl, rfl, rfl, rfl, rfl, rfl, rfl⟩
  obtain ⟨s₀, s₁, s, last, late, hnew, hload, hrun, hcycle, hdone, hfound, hlate⟩ := hstart
  have hs := (((Reachable.new hnew).loadPrograms hload).run hrun).1
  obtain ⟨hsome, hstate, -⟩ := clockUntilDone_stops_at_last_done hs (fun _ => {}) 3
  obtain ⟨hfinished, -⟩ := (hsome 6).mp ⟨last, hfound⟩
  obtain ⟨-, -, hnone, -⟩ := clockUntilDone_stops_at_last_done hs (fun _ => {}) 2
  have hnot : ¬ ∃ n ≤ s.cycle + 2, FinishedAt (fun _ => {}) s n := by
    rintro ⟨n, hle, hn⟩
    obtain rfl := hn.last.unique hfinished.last
    omega
  refine ⟨s, last, late, hs, hcycle, hdone, hfinished, hfound, ?_, ?_, hlate⟩
  · rw [← hstate last 6 hfound, hcycle]
  · rw [hnone hnot, hlate]
    rfl

end Cluster

end Sequencer
