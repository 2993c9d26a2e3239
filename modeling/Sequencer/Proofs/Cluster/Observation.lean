import Mathlib
import Sequencer.Proofs.Cluster.Feedback
import Sequencer.Proofs.Lookup.Schedule

/-! Measurement bits that nothing observes.

    The round looks at the required lines and client `i` at line `i`, and both look at the value of
    a line only where it is valid. So two cycles that agree on which of these lines are valid, and
    on the values of the valid ones, are not told apart (`Meas.AgreeOn`): the distributor remembers
    different lines, and nothing else differs (`Sound.clock_withMeas`). -/

namespace Sequencer

/-! ### Lines that agree -/

/-- Two words are the same under a mask exactly if they have the same bits where the mask has. -/
theorem and_eq_and_iff {x y mask : UInt32} : x &&& mask = y &&& mask ↔
    ∀ i, mask.toNat.testBit i = true → x.toNat.testBit i = y.toNat.testBit i := by
  constructor
  · intro h i hi
    have hbit := congrArg (·.toNat.testBit i) h
    simpa only [UInt32.toNat_and, Nat.testBit_and, hi, Bool.and_true] using hbit
  · intro h
    refine UInt32.toNat_inj.mp (Nat.eq_of_testBit_eq fun i => ?_)
    rw [UInt32.toNat_and, UInt32.toNat_and, Nat.testBit_and, Nat.testBit_and]
    cases hi : mask.toNat.testBit i with
    | false => rw [Bool.and_false, Bool.and_false]
    | true => rw [h i hi]

namespace Meas

/-- The same lines of the mask are valid, with the same values. -/
def AgreeOn (mask : UInt32) (a b : Meas) : Prop :=
  a.valid &&& mask = b.valid &&& mask ∧
    a.meas &&& a.valid &&& mask = b.meas &&& b.valid &&& mask

variable {mask mask' : UInt32} {a b : Meas}

theorem AgreeOn.refl (mask : UInt32) (a : Meas) : AgreeOn mask a a := ⟨rfl, rfl⟩

/-- Agreement, line by line. -/
theorem agreeOn_iff : AgreeOn mask a b ↔ ∀ i, mask.toNat.testBit i = true →
    a.valid.toNat.testBit i = b.valid.toNat.testBit i ∧
      (a.valid.toNat.testBit i = true → a.meas.toNat.testBit i = b.meas.toNat.testBit i) := by
  rw [AgreeOn, and_eq_and_iff, and_eq_and_iff, ← forall_and]
  refine forall_congr' fun i => ?_
  rw [← imp_and]
  refine imp_congr_right fun _ => and_congr_right fun hvalid => ?_
  rw [UInt32.toNat_and, UInt32.toNat_and, Nat.testBit_and, Nat.testBit_and, ← hvalid]
  cases a.valid.toNat.testBit i <;> simp

theorem AgreeOn.mono (h : AgreeOn mask a b)
    (hsub : ∀ i, mask'.toNat.testBit i = true → mask.toNat.testBit i = true) :
    AgreeOn mask' a b :=
  agreeOn_iff.mpr fun i hi => agreeOn_iff.mp h i (hsub i hi)

end Meas

/-- The round is given by the required lines. -/
theorem Round.latch_congr {r : Round} {a b : Meas} (h : Meas.AgreeOn r.table.requiredMask a b) :
    r.latch a = r.latch b := by
  have hacc : r.accumulate a = r.accumulate b := by
    rw [accumulate, accumulate, ← UInt32.and_assoc, ← UInt32.and_assoc, h.1, h.2]
  rw [latch, latch, hacc]

/-- A client is given by the line of its core. -/
theorem Client.respond_congr {cl : Client} {mask : UInt32} {a b : Meas} (h : Meas.AgreeOn mask a b)
    (hlt : cl.core < 32) (hbit : mask.toNat.testBit cl.core = true) (entry : Option UInt32) :
    cl.respond a entry = cl.respond b entry := by
  obtain ⟨hvalid, hmeas⟩ := Meas.agreeOn_iff.mp h cl.core hbit
  unfold respond
  rw [bit_eq hlt a.valid, bit_eq hlt b.valid, bit_eq hlt a.meas, bit_eq hlt b.meas, ← hvalid]
  -- only a valid line has its value read
  cases hv : a.valid.toNat.testBit cl.core with
  | false => rfl
  | true => rw [hmeas hv]

theorem Distributor.respondAll_congr {mask : UInt32} {a b : Meas} {entry : Option UInt32}
    (h : Meas.AgreeOn mask a b) : ∀ {cs : List Client} {rs : List Response},
    (∀ cl ∈ cs, cl.core < 32 ∧ mask.toNat.testBit cl.core = true) →
    respondAll a entry cs rs = respondAll b entry cs rs
  | [], _, _ => rfl
  | _ :: _, [], _ => rfl
  | cl :: cs, _ :: rs, hcs => by
    rw [List.forall_mem_cons] at hcs
    rw [respondAll, respondAll, Client.respond_congr h hcs.1.1 hcs.1.2, respondAll_congr h hcs.2]

namespace Cluster

variable {s s' t : Cluster} {m m' : Meas} {mask : UInt32}

/-- The lines that some part of the cluster looks at: those that the table requires, and one for
    each core. -/
def observed (s : Cluster) : UInt32 :=
  s.lut.round.table.requiredMask ||| ((1 <<< s.cores.length) - 1).toUInt32

theorem observed_required (s : Cluster) {i : Nat}
    (h : s.lut.round.table.requiredMask.toNat.testBit i = true) :
    s.observed.toNat.testBit i = true := by
  rw [observed, UInt32.toNat_or, Nat.testBit_or, h, Bool.true_or]

theorem observed_core {i : Nat} (hle : s.cores.length ≤ 32) (hi : i < s.cores.length) :
    s.observed.toNat.testBit i = true := by
  have hlow : ((1 <<< s.cores.length) - 1).toUInt32.toNat = 2 ^ s.cores.length - 1 := by
    have hpow : 2 ^ s.cores.length ≤ 2 ^ 32 := Nat.pow_le_pow_right (by decide) hle
    rw [Nat.one_shiftLeft]
    exact Nat.mod_eq_of_lt (by omega)
  rw [observed, UInt32.toNat_or, Nat.testBit_or, hlow, Nat.testBit_two_pow_sub_one,
    decide_eq_true hi, Bool.or_true]

theorem observed_of_tick (h : Tick m s s') : s'.observed = s.observed := by
  rw [observed, observed, h.round, Round.table_latch, h.length]

/-! ### One cycle -/

/-- The cluster with other lines remembered for the next edge. -/
def withMeas (s : Cluster) (m : Meas) : Cluster := { s with lut := { s.lut with meas := m } }

theorem propagateCores_congr {lut lut' : Distributor} {barrier : Barrier}
    (h : lut.responses = lut'.responses) : ∀ (index : Nat) (cs : List Core),
    propagateCores lut barrier index cs = propagateCores lut' barrier index cs
  | _, [] => rfl
  | index, c :: cs => by
    rw [propagateCores, propagateCores, Distributor.response, Distributor.response, h,
      propagateCores_congr h (index + 1) cs]

theorem latch_withMeas (h : s.latch = .ok t)
    (hagree : Meas.AgreeOn s.lut.round.table.requiredMask s.lut.meas m') :
    (s.withMeas m').latch = .ok (t.withMeas m') := by
  obtain ⟨barrier, cs, hbarrier, hcs, hlt, rfl⟩ := latch_eq_ok.mp h
  refine latch_eq_ok.mpr ⟨barrier, cs, hbarrier, hcs, hlt, ?_⟩
  simp only [withMeas, Distributor.latch, Round.latch_congr hagree]
  rfl

theorem propagate_withMeas (h : s.propagate m = .ok t) (hagree : Meas.AgreeOn mask m m')
    (hclients : ∀ cl ∈ s.lut.clients, cl.core < 32 ∧ mask.toNat.testBit cl.core = true)
    (m₀ : Meas) : (s.withMeas m₀).propagate m' = .ok (t.withMeas m') := by
  obtain ⟨rs, cs, hrs, hcs, rfl⟩ := propagate_eq_ok.mp h
  refine propagate_eq_ok.mpr ⟨rs, cs, ?_, ?_, rfl⟩
  · exact (Distributor.respondAll_congr hagree hclients).symm.trans hrs
  · rw [← hcs]
    refine propagateCores_congr ?_ 0 s.cores
    rfl

/-- Lines that agree where the cluster looks make one cycle, except for the lines themselves. -/
theorem Sound.clock_withMeas {m₀ : Meas} (hs : s.Sound) (h : s.clock m = .ok t)
    (hagree₀ : Meas.AgreeOn s.observed s.lut.meas m₀) (hagree : Meas.AgreeOn s.observed m m') :
    (s.withMeas m₀).clock m' = .ok (t.withMeas m') := by
  obtain ⟨edge, hedge, hp⟩ := clock_eq_ok.mp h
  have hlatch := latch_withMeas hedge (hagree₀.mono fun i => s.observed_required)
  refine clock_eq_ok.mpr ⟨edge.withMeas m₀, hlatch, ?_⟩
  refine propagate_withMeas hp hagree (fun cl hcl => ?_) m₀
  obtain ⟨barrier, cs, -, -, -, rfl⟩ := latch_eq_ok.mp hedge
  obtain ⟨cl₀, hcl₀, hcore⟩ := Distributor.core_of_mem_latchClients hcl
  have hlt := hs.client_lt cl₀ hcl₀
  rw [hcore] at hlt
  exact ⟨hlt.trans_le hs.cores_le, observed_core hs.cores_le hlt⟩

/-! ### Runs -/

/-- Streams of lines that agree where the cluster looks lead to the same run, except for the lines
    that the distributor remembers. -/
theorem Reachable.run_withMeas (hs : Reachable s) {meas meas' : Nat → Meas}
    (hagree : ∀ k, Meas.AgreeOn s.observed (meas k) (meas' k)) :
    ∀ {k : Nat} {t : Cluster}, clockN meas k s = .ok t →
    ∃ m', clockN meas' k s = .ok (t.withMeas m') ∧ Meas.AgreeOn s.observed t.lut.meas m'
  | 0, t, hrun => by
    obtain rfl := Except.ok.inj hrun
    exact ⟨s.lut.meas, rfl, .refl _ _⟩
  | k + 1, t, hrun => by
    obtain ⟨u, hu, hclock⟩ := clockN_succ_eq_ok.mp hrun
    obtain ⟨m₀, hu', hagree₀⟩ := hs.run_withMeas hagree hu
    have hobserved := eq_of_clockN observed observed_of_tick hu
    rw [← hobserved] at hagree₀
    have hagree₁ : Meas.AgreeOn u.observed _ _ := hobserved.symm ▸ hagree (u.cycle + 1)
    have hstep := (hs.run hu).1.sound.clock_withMeas hclock hagree₀ hagree₁
    refine ⟨_, clockN_succ_eq_ok.mpr ⟨_, hu', hstep⟩, ?_⟩
    rw [(tick_of_clock hclock).meas]
    exact hagree _

/-- Values of lines that are not valid, and lines that neither the table requires nor a core owns,
    are never observed. On two streams of lines that agree on which observed lines are valid and on
    the values of these, all cores, the round, all clients, all responses and the barrier are the
    same in every cycle. -/
theorem invalid_bits_unobserved (hs : Reachable s) {meas meas' : Nat → Meas}
    (hagree : ∀ k, Meas.AgreeOn s.observed (meas k) (meas' k)) {k : Nat}
    (hk : s.cycle + k < 2 ^ 64) :
    ∃ t t', clockN meas k s = .ok t ∧ clockN meas' k s = .ok t' ∧ t.cores = t'.cores ∧
      t.lut.round = t'.lut.round ∧ t.lut.clients = t'.lut.clients ∧
      t.lut.responses = t'.lut.responses ∧ t.barrier = t'.barrier ∧ t.cycle = t'.cycle := by
  obtain ⟨t, ht⟩ := hs.exists_clockN meas k hk
  obtain ⟨m', ht', -⟩ := hs.run_withMeas hagree ht
  exact ⟨t, t.withMeas m', ht, ht', rfl, rfl, rfl, rfl, rfl, rfl⟩

/-- Core 0 is answered from a table of three lines of which two are observed. The second stream has
    the third line valid throughout, and ones on every line that is not valid. -/
theorem invalid_bits_unobserved_noise :
    ∃ s u, Reachable s ∧ s.observed = 3 ∧
      (∀ k, Meas.AgreeOn 3 ⟨if k = 4 then 1 else 0, if k = 4 then 1 else if k = 6 then 2 else 0⟩
        ⟨if k = 6 then 0xfffffffd else 0xffffffff, if k = 4 then 5 else if k = 6 then 6 else 4⟩) ∧
      clockN (fun k => ⟨if k = 6 then 0xfffffffd else 0xffffffff,
        if k = 4 then 5 else if k = 6 then 6 else 4⟩) 7 s = .ok u ∧
      u.lut.response 0 = .ok ⟨true, 1⟩ ∧
      ∀ k < 2 ^ 64, ∃ t t',
        clockN (fun k => ⟨if k = 4 then 1 else 0,
          if k = 4 then 1 else if k = 6 then 2 else 0⟩) k s = .ok t ∧
        clockN (fun k => ⟨if k = 6 then 0xfffffffd else 0xffffffff,
          if k = 4 then 5 else if k = 6 then 6 else 4⟩) k s = .ok t' ∧
        t.cores = t'.cores ∧ t.lut.round = t'.lut.round ∧ t.lut.clients = t'.lut.clients ∧
        t.lut.responses = t'.lut.responses ∧ t.barrier = t'.barrier ∧ t.cycle = t'.cycle := by
  have hstart : ∃ s₀ c c' u,
      Cluster.new .narrow 2 ⟨3, 3, #[0, 1, 2, 3, 0, 0, 0, 0]⟩ = pure s₀ ∧
      s₀.core 0 = .ok c ∧ c.loadProgram [Narrow.aluFproc] = .ok (c', .ok ()) ∧
      (s₀.setCore 0 c').observed = 3 ∧ (s₀.setCore 0 c').cycle = 0 ∧
      clockN (fun k => ⟨if k = 6 then 0xfffffffd else 0xffffffff,
        if k = 4 then 5 else if k = 6 then 6 else 4⟩) 7 (s₀.setCore 0 c') = .ok u ∧
      u.lut.response 0 = .ok ⟨true, 1⟩ :=
    ⟨_, _, _, _, rfl, rfl, rfl, rfl, rfl, rfl, rfl⟩
  obtain ⟨s₀, c, c', u, hnew, hc, hload, hobserved, hcycle, hu, hr⟩ := hstart
  have hs := (Reachable.new hnew).load hc hload
  have hagree : ∀ k : Nat, Meas.AgreeOn 3
      ⟨if k = 4 then 1 else 0, if k = 4 then 1 else if k = 6 then 2 else 0⟩
      ⟨if k = 6 then 0xfffffffd else 0xffffffff, if k = 4 then 5 else if k = 6 then 6 else 4⟩ := by
    intro k
    by_cases h4 : k = 4
    · subst h4
      exact ⟨rfl, rfl⟩
    · by_cases h6 : k = 6
      · subst h6
        exact ⟨rfl, rfl⟩
      · simp only [if_neg h4, if_neg h6]
        exact ⟨rfl, rfl⟩
  refine ⟨_, u, hs, hobserved, hagree, hu, hr, fun k hk => ?_⟩
  exact invalid_bits_unobserved hs (by rwa [hobserved]) (by omega)

end Cluster

end Sequencer
