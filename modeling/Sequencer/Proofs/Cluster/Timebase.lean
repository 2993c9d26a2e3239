import Mathlib
import Sequencer.Proofs.Cluster.Sound
import Sequencer.Proofs.Core.Timebase

/-! The timebases of a cluster.

    The timebase of a core is its cycle and the increments that have retired. As the cores of a
    cluster share the cycle, their timebases agree with it, and so with each other, as long as no
    core retires an increment (`timebase_of_run`). -/

namespace Sequencer

namespace Cluster

variable {s s' s₀ : Cluster} {i n : Nat} {c c' : Core} {meas : Nat → Meas}

/-! ### Starts -/

/-- A fresh or reset cluster, with programs loaded into it. -/
inductive Start : Cluster → Prop
  | new {config : Config} {n : Nat} {table : LookupTable} {s : Cluster} :
    Cluster.new config n table = pure s → Start s
  | withBarrier {config : Config} {n : Nat} {table : LookupTable} {s : Cluster}
    (participants : UInt32) :
    Cluster.new config n table = pure s → Start (s.withBarrier participants)
  | reset {s s' : Cluster} : Reachable s → s.reset = .ok s' → Start s'
  | load {s : Cluster} {i : Nat} {c c' : Core} {program : List Word}
    {result : Except ProgramTooLong Unit} :
    Start s → s.core i = .ok c → c.loadProgram program = .ok (c', result) → Start (s.setCore i c')

theorem Start.reachable (h : Start s) : Reachable s := by
  induction h with
  | new h => exact .new h
  | withBarrier participants h => exact .withBarrier participants h
  | reset h hr => exact h.reset hr
  | load _ hc hl ih => exact ih.load hc hl

/-- The cycle and every timebase are zero. -/
structure AtZero (s : Cluster) : Prop where
  cycle : s.cycle = 0
  qclk : ∀ {i : Nat} {c : Core}, s.cores[i]? = some c → c.qclk.value = 0

theorem atZero_of_new {config : Config} {table : LookupTable}
    (h : Cluster.new config n table = pure s) : s.AtZero := by
  obtain ⟨-, core, lut, participants, hcore, -, rfl⟩ := new_eq_pure h
  refine ⟨rfl, fun hc => ?_⟩
  obtain rfl := (List.eq_of_mem_replicate (List.mem_of_getElem? hc)).symm
  exact (Core.atReset_of_new hcore).qclk

theorem atZero_of_reset (h : s.reset = .ok s') : s'.AtZero := by
  obtain ⟨cs, hcs, h⟩ := reset_eq_ok.mp h
  obtain ⟨rs, cs', -, hcs', rfl⟩ := propagate_eq_ok.mp h
  obtain ⟨hlength, hreset⟩ := Checked.mapM_eq_ok hcs
  obtain ⟨hlength', hpropagate⟩ := getElem?_propagateCores hcs'
  refine ⟨rfl, fun {i c} hc => ?_⟩
  have hlt := (List.getElem?_eq_some_iff.mp hc).1
  rw [hlength', hlength] at hlt
  obtain ⟨c₁, hc₁, hcreset⟩ := hreset i _ (List.getElem?_eq_getElem hlt)
  obtain ⟨r, ready, d, -, -, hd, hp⟩ := hpropagate i c₁ hc₁
  obtain rfl := Option.some.inj (hc.symm.trans hd)
  -- settling does not touch the timebase
  obtain ⟨op, x, y, -, -, -, rfl⟩ := Core.propagate_eq_ok.mp hp
  obtain ⟨op', x', y', -, -, -, rfl⟩ := Core.propagate_eq_ok.mp hcreset
  rfl

theorem Start.atZero (h : Start s) : s.AtZero := by
  induction h with
  | new h => exact atZero_of_new h
  | withBarrier participants h =>
    have hzero := atZero_of_new h
    exact ⟨hzero.cycle, hzero.qclk⟩
  | reset _ hr => exact atZero_of_reset hr
  | load _ hk hl ih =>
    have hzero := ih.qclk (Checked.get_eq_ok.mp hk)
    obtain ⟨words, rfl, -⟩ := Core.exists_holding_of_load hl
    refine ⟨ih.cycle, fun hc => ?_⟩
    rcases getElem?_setCore hc with ⟨-, rfl⟩ | hc
    · exact hzero
    · exact ih.qclk hc

/-! ### Runs without increments -/

/-- Before cycle `n` of the run no core retires an increment. -/
def NoIncrement (meas : Nat → Meas) (s : Cluster) (n : Nat) : Prop :=
  ∀ k < n, ∀ s' i c, clockN meas k s = .ok s' → s'.core i = .ok c → c.retires = true →
    ∀ op in0, c.operation ≠ .incQclk op in0

theorem Start.timebase (h : Start s₀) (hrun : clockN meas n s₀ = .ok s)
    (hno : NoIncrement meas s₀ n) (hc : s.cores[i]? = some c) :
    c.qclk.value = UInt32.ofNat s.cycle := by
  induction n generalizing s c with
  | zero =>
    obtain rfl := Except.ok.inj hrun
    rw [h.atZero.cycle, h.atZero.qclk hc]
    rfl
  | succ n ih =>
    obtain ⟨s₁, h₁, hclock⟩ := clockN_succ_eq_ok.mp hrun
    have htick := tick_of_clock hclock
    obtain ⟨c₁, hc₁⟩ := htick.exists_core hc
    obtain ⟨r, ready, d, -, -, hd, hcore⟩ := htick.core hc₁
    obtain rfl := Option.some.inj (hc.symm.trans hd)
    have hsound := ((h.reachable.run h₁).1.sound.core hc₁).1
    have hne : c₁.state ≠ .incQclkExec := by
      intro hs
      obtain ⟨hretires, op, in0, hop⟩ := hsound.retires_incQclk_iff.mpr hs
      exact hno n (by omega) s₁ i c₁ h₁ (Checked.get_eq_ok.mpr hc₁) hretires op in0 hop
    rw [hcore.qclk_of_ne hsound hne, ih h₁ (fun k hk => hno k (by omega)) hc₁, htick.cycle,
      UInt32.ofNat_add]
    rfl

/-- The timebase is the cycle and the sum of the increments that have retired, cut to 32 bits, at
    every cycle of a run of a fresh or reset core in which increments add. In a cluster in which no
    core retires an increment, every timebase is the cycle of the cluster. -/
theorem timebase_of_run :
    (∀ config c₀ inputs, Core.Start config c₀ →
      (∀ t < 2 ^ 64, ∃ c, c₀.run inputs t = .ok c) ∧
      ∀ t c, c₀.run inputs t = .ok c → c₀.OnlyAdds inputs t →
        c.qclk.value.toNat =
          (c.cycle + ∑ k ∈ Finset.range t, c₀.increment inputs k) % 2 ^ 32) ∧
    ∀ s₀ meas, Start s₀ →
      (∀ n < 2 ^ 64, ∃ s, clockN meas n s₀ = .ok s) ∧
      ∀ n s, clockN meas n s₀ = .ok s → NoIncrement meas s₀ n →
        ∀ i c, s.core i = .ok c → c.qclk.value.toNat = s.cycle % 2 ^ 32 := by
  refine ⟨fun config c₀ inputs h => ⟨h.reached.exists_run inputs, fun t c hrun hadd => ?_⟩,
    fun s₀ meas h => ⟨fun n hn => ?_, fun n s hrun hno i c hc => ?_⟩⟩
  · rw [h.timebase hrun hadd, (h.reached.run hrun).cycle, UInt32.toNat_ofNat']
  · exact h.reachable.exists_clockN meas n (by rw [h.atZero.cycle, Nat.zero_add]; exact hn)
  · rw [h.timebase hrun hno (Checked.get_eq_ok.mp hc), UInt32.toNat_ofNat']

/-- An increment by `2 ^ 32 - 6`, from a register, takes the timebase of cycle 8 to 2. A core that
    computes and one that stalls keep the timebase of their cluster. -/
theorem timebase_of_wrapping_increment :
    (∃ c₀ c, Core.Start .narrow c₀ ∧
      c₀.run (fun _ => {}) 8 = .ok c ∧ c₀.OnlyAdds (fun _ => {}) 8 ∧ c.qclk.value = 2 ∧
      c.qclk.value.toNat =
        (c.cycle + ∑ k ∈ Finset.range 8, c₀.increment (fun _ => {}) k) % 2 ^ 32) ∧
    ∃ s₀ s c, Start s₀ ∧ clockN (fun _ => {}) 5 s₀ = .ok s ∧ NoIncrement (fun _ => {}) s₀ 5 ∧
      s.core 1 = .ok c ∧ c.retired = 0 ∧ c.qclk.value.toNat = s.cycle % 2 ^ 32 := by
  constructor
  · have hrun : ∃ fresh c₀ c, Core.new .narrow = pure fresh ∧
        fresh.loadProgram [Narrow.setMinusSix, Narrow.incAddReg] = .ok (c₀, .ok ()) ∧
        c₀.run (fun _ => {}) 8 = .ok c ∧ c.qclk.value = 2 ∧
        ∀ k < 8, (c₀.run (fun _ => {}) k).map (fun d =>
          d.operation.execState != some .incQclkExec || d.operation == .incQclk .add (.reg 1)) =
            .ok true :=
      ⟨_, _, _, rfl, rfl, rfl, rfl, fun k hk => by interval_cases k <;> rfl⟩
    obtain ⟨fresh, c₀, c, hnew, hload, hrun, hqclk, hcheck⟩ := hrun
    have hadd : c₀.OnlyAdds (fun _ => {}) 8 := by
      intro k hk d op in0 hd _ hop
      have hk := hcheck k hk
      rw [hd, Except.map, hop, Except.ok.injEq] at hk
      simp [Operation.execState] at hk
      exact hk.1
    have hs : Core.Start _ c₀ := .load (.new hnew) hload
    exact ⟨c₀, c, hs, hrun, hadd, hqclk, (timebase_of_run.1 _ c₀ _ hs).2 8 c hrun hadd⟩
  · have hrun : ∃ s₀ d d' s c, Cluster.new .narrow 2 .echo = pure s₀ ∧ s₀.core 0 = .ok d ∧
        d.loadProgram [Narrow.setMinusSix] = .ok (d', .ok ()) ∧
        clockN (fun _ => {}) 5 (s₀.setCore 0 d') = .ok s ∧ s.core 1 = .ok c ∧ c.retired = 0 ∧
        ∀ k < 5, (clockN (fun _ => {}) k (s₀.setCore 0 d')).map
          (·.cores.all (·.operation.execState != some .incQclkExec)) = .ok true :=
      ⟨_, _, _, _, _, rfl, rfl, rfl, rfl, rfl, rfl, fun k hk => by interval_cases k <;> rfl⟩
    obtain ⟨s₀, d, d', s, c, hnew, hd, hload, hrun, hc, hretired, hcheck⟩ := hrun
    have hno : NoIncrement (fun _ => {}) (s₀.setCore 0 d') 5 := by
      intro k hk s' i e hs' he _ op in0 hop
      have hk := hcheck k hk
      rw [hs', Except.map, Except.ok.injEq, List.all_eq_true] at hk
      have hfalse := hk e (List.mem_of_getElem? (Checked.get_eq_ok.mp he))
      simp [hop, Operation.execState] at hfalse
    have hs : Start (s₀.setCore 0 d') := .load (.new hnew) hd hload
    exact ⟨_, s, c, hs, hrun, hno, hc, hretired,
      (timebase_of_run.2 _ _ hs).2 5 s hrun hno 1 c hc⟩

end Cluster

end Sequencer
