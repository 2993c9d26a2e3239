import Mathlib
import Sequencer.Proofs.Core.Terminal
import Sequencer.Proofs.Scenario.Build

/-! What a report says.

    The run of a scenario tests the cycle count before every clock and collects strobes on the way.
    As every clock counts one cycle, it clocks as `clockUntilDone` does, which counts its rounds
    (`runFrom_eq_clockWhileRunning`). After every clock the strobes so far are those of all cycles
    so far, in the order of their cycles and cores (`Recorded`). A run with a higher limit goes on
    where one with a lower limit ended (`runFrom_of_le`), and where all cores are done no strobe is
    left to come (`Populated.cstrobe_of_done`): a done core is in decode, and a strobe is high
    during a fetch. -/

namespace Sequencer

/-- The order of the strobes in a report: by cycle, and by core within a cycle. -/
def Strobe.Before (x y : Strobe) : Prop := x.cycle < y.cycle ∨ x.cycle = y.cycle ∧ x.core < y.core

namespace Cluster

variable {s s' s₀ last : Cluster} {m : Meas} {meas : Nat → Meas} {config : Config}
  {acc out : Array Strobe} {strobes : List Strobe} {x : Strobe} {limit n : Nat}

/-! ### The strobes of one cycle -/

theorem mem_strobes : x ∈ s.strobes ↔ x.cycle = s.cycle ∧
    ∃ c, s.core x.core = .ok c ∧ c.pulse.out.cstrobe = true ∧ x.outputs = c.pulse.out := by
  simp only [strobes, List.mem_filterMap, Prod.exists, List.mk_mem_zipIdx_iff_getElem?, core,
    Checked.get_eq_ok]
  constructor
  · rintro ⟨c, core, hc, hx⟩
    rw [Option.ite_none_right_eq_some, Option.some.injEq] at hx
    obtain ⟨hstrobe, rfl⟩ := hx
    exact ⟨rfl, c, hc, hstrobe, rfl⟩
  · rintro ⟨hcycle, c, hc, hstrobe, houtputs⟩
    refine ⟨c, x.core, hc, ?_⟩
    rw [if_pos hstrobe, ← hcycle, ← houtputs]

theorem pairwise_strobes (s : Cluster) : s.strobes.Pairwise Strobe.Before := by
  have hindex : s.cores.zipIdx.Pairwise (fun a b => a.2 < b.2) := by
    rw [← List.pairwise_map, List.zipIdx_map_snd]
    exact List.pairwise_lt_range'
  refine hindex.filterMap _ fun a b hab x hx y hy => ?_
  rw [Option.ite_none_right_eq_some, Option.some.injEq] at hx hy
  obtain ⟨-, rfl⟩ := hx
  obtain ⟨-, rfl⟩ := hy
  exact .inr ⟨rfl, hab⟩

/-! ### The loop -/

/-- The loop goes on: some core is not done, and the limit is not reached. -/
def Pending (limit : Nat) (s : Cluster) : Prop := s.done = false ∧ s.cycle < limit

theorem runFrom_of_stopped (h : ¬ s.Pending limit) : runFrom meas limit acc s = .ok (acc, s) := by
  have htest : ¬ (!s.done && s.cycle < limit) = true := by simpa [Pending] using h
  rw [runFrom]
  cases limit - s.cycle with
  | zero => rfl
  | succ rounds => rw [runRounds, if_neg htest]; rfl

/-- A clock takes one of the cycles that are left up to the limit. -/
theorem Pending.exists_left (h : s.Pending limit) (meas : Nat → Meas) :
    ∃ left, limit - s.cycle = left + 1 ∧
      ∀ {next}, s.clockWith meas = .ok next → limit - next.cycle = left := by
  have hlt : s.cycle < limit := h.2
  refine ⟨limit - s.cycle - 1, by omega, fun hnext => ?_⟩
  have hcycle := (tick_of_clock hnext).cycle
  omega

/-- The rounds do not run out before the test fails. -/
theorem runFrom_of_pending (h : s.Pending limit) : runFrom meas limit acc s =
    s.clockWith meas >>= fun next => runFrom meas limit (acc ++ next.strobes.toArray) next := by
  have htest : (!s.done && s.cycle < limit) = true := by simpa [Pending] using h
  obtain ⟨left, hleft, hnextLeft⟩ := h.exists_left meas
  rw [runFrom, hleft, runRounds, if_pos htest]
  cases hnext : s.clockWith meas with
  | error e => rfl
  | ok next => rw [Checked.ok_bind, Checked.ok_bind, runFrom, hnextLeft hnext]

/-- Induction along the loop, on the cycles that are left. -/
theorem loop_induction {P : Cluster → Prop} (meas : Nat → Meas) (limit : Nat)
    (stop : ∀ s, ¬ s.Pending limit → P s)
    (step : ∀ s, s.Pending limit → (∀ next, s.clockWith meas = .ok next → P next) → P s)
    (s : Cluster) : P s := by
  induction hleft : limit - s.cycle generalizing s with
  | zero => exact stop s fun h => Nat.sub_ne_zero_of_lt h.2 hleft
  | succ n ih =>
    by_cases h : s.Pending limit
    · obtain ⟨left, hsucc, hnextLeft⟩ := h.exists_left meas
      obtain rfl := Nat.succ.inj (hleft.symm.trans hsucc)
      exact step s h fun next hnext => ih next (hnextLeft hnext)
    · exact stop s h

theorem clockWhileRunning_of_done (h : s.done = true) (limit : Nat) :
    clockWhileRunning meas limit s = .ok s := by
  cases limit with
  | zero => rfl
  | succ limit => rw [clockWhileRunning, if_pos h]; rfl

/-- The loop that looks at the cycle count clocks as the one that counts its rounds does, with as
    many rounds as there are cycles up to the limit. -/
theorem runFrom_eq_clockWhileRunning (limit : Nat) (acc : Array Strobe) (s : Cluster) :
    (runFrom meas limit acc s).map Prod.snd = clockWhileRunning meas (limit - s.cycle) s := by
  induction s using loop_induction meas limit generalizing acc with
  | stop s h =>
    rw [runFrom_of_stopped h]
    cases hdone : s.done with
    | true => exact (clockWhileRunning_of_done hdone _).symm
    | false =>
      have hle : ¬ s.cycle < limit := fun hlt => h ⟨hdone, hlt⟩
      rw [Nat.sub_eq_zero_of_le (Nat.not_lt.mp hle)]
      rfl
  | step s h ih =>
    obtain ⟨left, hleft, hnextLeft⟩ := h.exists_left meas
    rw [runFrom_of_pending h, hleft, clockWhileRunning, if_neg (by rw [h.1]; decide)]
    cases hnext : s.clockWith meas with
    | error e => rfl
    | ok next => rw [Checked.ok_bind, Checked.ok_bind, ih next hnext, hnextLeft hnext]

/-- A run with a higher limit goes on where one with a lower limit ended. -/
theorem runFrom_of_le (hle : limit ≤ n) (acc : Array Strobe) (s : Cluster) :
    runFrom meas n acc s = runFrom meas limit acc s >>= fun p => runFrom meas n p.1 p.2 := by
  induction s using loop_induction meas limit generalizing acc with
  | stop s h => rw [runFrom_of_stopped h, Checked.ok_bind]
  | step s h ih =>
    rw [runFrom_of_pending h, runFrom_of_pending ⟨h.1, h.2.trans_le hle⟩]
    cases hnext : s.clockWith meas with
    | error e => rfl
    | ok next => exact ih next hnext _

/-- What every clock keeps holds at the end of a run. -/
theorem runFrom_invariant {P : Array Strobe → Cluster → Prop}
    (step : ∀ {acc s next}, P acc s → s.clockWith meas = .ok next →
      P (acc ++ next.strobes.toArray) next)
    (h : P acc s) (hrun : runFrom meas limit acc s = .ok (out, last)) : P out last := by
  induction s using loop_induction meas limit generalizing acc with
  | stop s hstop =>
    rw [runFrom_of_stopped hstop] at hrun
    obtain ⟨rfl, rfl⟩ := Prod.mk.inj (Except.ok.inj hrun)
    exact h
  | step s hgo ih =>
    rw [runFrom_of_pending hgo] at hrun
    obtain ⟨next, hnext, hrun⟩ := Checked.bind_eq_ok.mp hrun
    exact ih next hnext (step h hnext) hrun

/-- Nothing that was collected is lost. -/
theorem prefix_of_runFrom (h : runFrom meas limit acc s = .ok (out, last)) :
    acc.toList <+: out.toList := by
  refine runFrom_invariant (P := fun out _ => acc.toList <+: out.toList) ?_ List.prefix_rfl h
  intro out s next hprefix _
  rw [Array.toList_append]
  exact hprefix.trans (List.prefix_append _ _)

theorem Reachable.exists_runFrom (hs : Reachable s) (meas : Nat → Meas) (hlimit : limit < 2 ^ 64)
    (acc : Array Strobe) : ∃ out last, runFrom meas limit acc s = .ok (out, last) := by
  induction s using loop_induction meas limit generalizing acc with
  | stop s h => exact ⟨acc, s, runFrom_of_stopped h⟩
  | step s h ih =>
    have hlt : s.cycle < limit := h.2
    obtain ⟨next, hnext⟩ := hs.sound.exists_clock (by omega) (meas (s.cycle + 1))
    obtain ⟨out, last, hout⟩ := ih next hnext (hs.clock _ hnext) (acc ++ next.strobes.toArray)
    exact ⟨out, last,
      (runFrom_of_pending h).trans (Checked.bind_eq_ok.mpr ⟨next, hnext, hout⟩)⟩

/-! ### What is collected -/

/-- In the run from `s₀` the strobe is high in the cycle and on the core that `x` names, with the
    outputs that it shows. -/
def IsStrobe (meas : Nat → Meas) (s₀ : Cluster) (x : Strobe) : Prop :=
  ∃ s c, clockN meas x.cycle s₀ = .ok s ∧ s.core x.core = .ok c ∧
    c.pulse.out.cstrobe = true ∧ x.outputs = c.pulse.out

/-- `s` is a cluster of the run from `s₀`, and `strobes` are those of all cycles up to its own,
    in order. -/
structure Recorded (meas : Nat → Meas) (s₀ : Cluster) (strobes : List Strobe) (s : Cluster) :
    Prop where
  run : clockN meas s.cycle s₀ = .ok s
  ordered : strobes.Pairwise Strobe.Before
  mem_iff : ∀ x, x ∈ strobes ↔ 1 ≤ x.cycle ∧ x.cycle ≤ s.cycle ∧ IsStrobe meas s₀ x

theorem Recorded.start (h : s.cycle = 0) : Recorded meas s [] s := by
  refine ⟨by rw [h]; rfl, .nil, fun x => ?_⟩
  rw [h]
  simp only [List.not_mem_nil, false_iff]
  omega

/-- One clock adds the strobes of the new cycle. -/
theorem Recorded.clock (h : Recorded meas s₀ strobes s) (hc : s.clockWith meas = .ok s') :
    Recorded meas s₀ (strobes ++ s'.strobes) s' := by
  have hcycle : s'.cycle = s.cycle + 1 := (tick_of_clock hc).cycle
  have hrun : clockN meas s'.cycle s₀ = .ok s' := by
    rw [hcycle]
    exact clockN_succ_eq_ok.mpr ⟨s, h.run, hc⟩
  refine ⟨hrun, List.pairwise_append.mpr ⟨h.ordered, s'.pairwise_strobes, ?_⟩, fun x => ?_⟩
  · intro x hx y hy
    have hle := ((h.mem_iff x).mp hx).2.1
    have heq := (mem_strobes.mp hy).1
    exact .inl (by omega)
  · rw [List.mem_append, h.mem_iff, mem_strobes]
    constructor
    · rintro (⟨hpos, hle, hstrobe⟩ | ⟨heq, c, hc, hstrobe, houtputs⟩)
      · exact ⟨hpos, by omega, hstrobe⟩
      · exact ⟨by omega, heq.le, s', c, heq ▸ hrun, hc, hstrobe, houtputs⟩
    · rintro ⟨hpos, hle, hstrobe⟩
      rcases hle.lt_or_eq with hlt | heq
      · exact .inl ⟨hpos, by omega, hstrobe⟩
      · obtain ⟨t, c, ht, hc, hhigh⟩ := hstrobe
        rw [heq] at ht
        obtain rfl := Except.ok.inj (hrun.symm.trans ht)
        exact .inr ⟨heq, c, hc, hhigh⟩

theorem Recorded.runFrom (h : Recorded meas s₀ acc.toList s)
    (hrun : runFrom meas limit acc s = .ok (out, last)) : Recorded meas s₀ out.toList last := by
  refine runFrom_invariant (P := fun acc s => Recorded meas s₀ acc.toList s) ?_ h hrun
  intro acc s next hrecorded hnext
  rw [Array.toList_append]
  exact hrecorded.clock hnext

/-! ### Clusters that are done -/

/-- Every core is a settled core of the configuration. -/
def Populated (config : Config) (s : Cluster) : Prop :=
  ∀ c ∈ s.cores, Core.Reachable config c ∧ c.HasSettled

theorem continues_of_clock (h : s.clock m = .ok s') {c' : Core} (hc' : c' ∈ s'.cores) :
    ∃ c ∈ s.cores, Core.Continues c 1 c' := by
  obtain ⟨c, hc, i, hclock⟩ := mem_clock h hc'
  exact ⟨c, hc, .of_clock hclock⟩

theorem Populated.clock (h : Populated config s) (hc : s.clock m = .ok s') :
    Populated config s' := by
  intro c' hc'
  obtain ⟨c, hmem, hcont⟩ := continues_of_clock hc hc'
  exact ⟨hcont.reachable (h c hmem).1, hcont.hasSettled (h c hmem).2⟩

theorem Populated.done_of_clock (h : Populated config s) (hdone : s.done = true)
    (hc : s.clock m = .ok s') : s'.done = true := by
  refine List.all_eq_true.mpr fun c' hc' => ?_
  obtain ⟨c, hmem, hcont⟩ := continues_of_clock hc hc'
  obtain ⟨hreach, hsettled⟩ := h c hmem
  obtain ⟨hs, hop⟩ := hsettled.done_iff.mp (List.all_eq_true.mp hdone c hmem)
  have hfrozen := hreach.frozen_of_terminal hsettled hs (by rw [hop]; rfl) hcont
  exact (h.clock hc c' hc').2.done_iff.mpr ⟨hfrozen.state, hfrozen.operation.trans hop⟩

theorem Populated.cstrobe_of_done (h : Populated config s) (hdone : s.done = true) :
    ∀ c ∈ s.cores, c.pulse.out.cstrobe = false := by
  intro c hmem
  obtain ⟨hreach, hsettled⟩ := h c hmem
  obtain ⟨hs, -⟩ := hsettled.done_iff.mp (List.all_eq_true.mp hdone c hmem)
  exact (hreach.frozen_refl hs).cstrobe

theorem Populated.run (h : Populated config s) : ∀ {n : Nat} {s' : Cluster},
    clockN meas n s = .ok s' → Populated config s' ∧ (s.done = true → s'.done = true)
  | 0, _, hrun => by
    obtain rfl := Except.ok.inj hrun
    exact ⟨h, id⟩
  | n + 1, s', hrun => by
    obtain ⟨s₁, h₁, hclock⟩ := clockN_succ_eq_ok.mp hrun
    obtain ⟨hpop, hdone⟩ := h.run h₁
    exact ⟨hpop.clock hclock, fun hs => hpop.done_of_clock (hdone hs) hclock⟩

end Cluster

/-! ### Reports -/

namespace Scenario

variable {s : Scenario} {cluster : Cluster} {r : Report} {N : Nat}

theorem Builds.populated (h : s.Builds cluster) : cluster.Populated s.config := by
  intro c hc
  obtain ⟨i, hi⟩ := List.mem_iff_getElem?.mp hc
  exact ⟨h.core_reachable c hc, (h.reachable.sound.core hi).1.hasSettled⟩

theorem run_eq_ok : s.run N cluster = .ok r ↔
    ∃ out last, cluster.runFrom s.meas N #[] = .ok (out, last) ∧
      r = ⟨last.cycle, last.done, out.toList, last.cores.map Core.snapshot⟩ := by
  rw [Scenario.run, Checked.bind_eq_ok]
  constructor
  · rintro ⟨⟨out, last⟩, hrun, hr⟩
    exact ⟨out, last, hrun, (Except.ok.inj hr).symm⟩
  · rintro ⟨out, last, hrun, rfl⟩
    exact ⟨(out, last), hrun, rfl⟩

/-- The report of a run is that of the library's loop. For every limit of cycles there is a report,
    and cycles, done and cores in it are those after `clockUntilDone` with as many rounds. Its
    strobes are all those of the cycles that were run, ordered by cycle and core and none twice. A
    run with a higher limit has these strobes first. If the cores are done it has the same report,
    and however the cluster is clocked on, no strobe comes any more. -/
theorem report_of_library_loop (h : s.Builds cluster) :
    (∀ N < 2 ^ 64, ∃ r last count, s.run N cluster = .ok r ∧
      cluster.clockUntilDone N s.meas = .ok (last, count) ∧
      r.cycles = last.cycle ∧ r.done = last.done ∧ r.cores = last.cores.map Core.snapshot ∧
      count = (if r.done then some r.cycles else none) ∧
      r.strobes.Pairwise Strobe.Before ∧
      (∀ x, x ∈ r.strobes ↔
        1 ≤ x.cycle ∧ x.cycle ≤ r.cycles ∧ Cluster.IsStrobe s.meas cluster x) ∧
      (r.done = true → ∀ meas n,
        (last.cycle + n < 2 ^ 64 → ∃ t, Cluster.clockN meas n last = .ok t) ∧
        ∀ t, Cluster.clockN meas n last = .ok t → ∀ c ∈ t.cores, c.pulse.out.cstrobe = false)) ∧
    ∀ N₁ N₂ r₁ r₂, N₁ ≤ N₂ → s.run N₁ cluster = .ok r₁ → s.run N₂ cluster = .ok r₂ →
      r₁.strobes <+: r₂.strobes ∧ (r₁.done = true → r₂ = r₁) := by
  refine ⟨fun N hN => ?_, fun N₁ N₂ r₁ r₂ hle h₁ h₂ => ?_⟩
  · obtain ⟨out, last, hrun⟩ := h.reachable.exists_runFrom s.meas hN #[]
    have hrecorded := (Cluster.Recorded.start h.cycle).runFrom hrun
    have hloop : cluster.clockWhileRunning s.meas N = .ok last := by
      rw [← Nat.sub_zero N, ← h.cycle, ← Cluster.runFrom_eq_clockWhileRunning N #[], hrun]
      rfl
    refine ⟨_, last, _, run_eq_ok.mpr ⟨out, last, hrun, rfl⟩,
      Checked.bind_eq_ok.mpr ⟨last, hloop, rfl⟩, rfl, rfl, rfl, rfl, hrecorded.ordered,
      hrecorded.mem_iff, fun hdone meas n => ?_⟩
    obtain ⟨hpopulated, -⟩ := h.populated.run hrecorded.run
    obtain ⟨hreachable, -⟩ := h.reachable.run hrecorded.run
    refine ⟨hreachable.exists_clockN meas n, fun t ht => ?_⟩
    obtain ⟨hpop, hstays⟩ := hpopulated.run ht
    exact hpop.cstrobe_of_done (hstays hdone)
  · obtain ⟨out₁, last₁, hrun₁, rfl⟩ := run_eq_ok.mp h₁
    obtain ⟨out₂, last₂, hrun₂, rfl⟩ := run_eq_ok.mp h₂
    rw [Cluster.runFrom_of_le hle, hrun₁, Checked.ok_bind] at hrun₂
    refine ⟨Cluster.prefix_of_runFrom hrun₂, fun hdone => ?_⟩
    rw [Cluster.runFrom_of_stopped fun hgo => Bool.false_ne_true (hgo.1.symm.trans hdone)] at hrun₂
    obtain ⟨rfl, rfl⟩ := Prod.mk.inj (Except.ok.inj hrun₂)
    rfl

/-- Two cores fire the same pulse in cycle 8 and are done in cycle 10. -/
theorem report_of_library_loop_twice :
    ∃ s cluster r last, Builds s cluster ∧
      s.programs = ["pulse", "pulse"] ∧ s.run 20 cluster = .ok r ∧
      r.strobes.map (fun x => (x.cycle, x.core)) = [(8, 0), (8, 1)] ∧
      cluster.clockUntilDone 20 s.meas = .ok (last, some 10) ∧
      ∀ meas n t, Cluster.clockN meas n last = .ok t →
        ∀ c ∈ t.cores, c.pulse.out.cstrobe = false := by
  have hbuild : ∃ cluster w', Session.Yields
      (Session.build Files.storage { config := .narrow, programs := ["pulse", "pulse"] })
      ({}, .single "pulse" Narrow.pulseText) cluster w' ∧
      (Scenario.run { config := .narrow, programs := ["pulse", "pulse"] } 20 cluster).toOption.any
        (fun r => r.done && r.cycles == 10 &&
          r.strobes.map (fun x => (x.cycle, x.core)) == [(8, 0), (8, 1)]) = true :=
    Session.exists_yields (by decide +kernel)
  obtain ⟨cluster, w', hyields, hcheck⟩ := hbuild
  have h : Builds _ cluster := ⟨_, _, _, _, hyields⟩
  obtain ⟨r, last, count, hrun, hloop, -, -, -, hcount, -, -, hquiet⟩ :=
    (report_of_library_loop h).1 20 (by decide)
  rw [hrun] at hcheck
  simp only [Except.toOption, Option.any_some, Bool.and_eq_true, beq_iff_eq] at hcheck
  obtain ⟨⟨hdone, hcycles⟩, hstrobes⟩ := hcheck
  rw [hcount, if_pos hdone, hcycles] at hloop
  exact ⟨_, cluster, r, last, h, rfl, hrun, hstrobes, hloop, fun meas n => (hquiet hdone meas n).2⟩

end Scenario

end Sequencer
