import Mathlib
import Sequencer.Proofs.Cluster.Sound
import Sequencer.Proofs.Core.Interpreter

/-! Barrier agreement.

    The barrier fires in the cycle after the participants first ask for one common id. In a firing
    cycle every participant waits at the same barrier (`Gathered`, kept by every tick), so all of
    them leave it on one edge, and no core leaves a barrier on any other. Hence the participants
    retire the same barriers in the same order (`barrier_agreement`). -/

namespace Sequencer

/-- `start` follows the last cycle up to `t` in which `p` holds, or is zero if there is none. -/
def SinceLast (p : Nat → Prop) (start t : Nat) : Prop :=
  (start = 0 ∨ ∃ r, start = r + 1 ∧ p r) ∧ ∀ u, start ≤ u → u ≤ t → ¬ p u

theorem exists_sinceLast {p : Nat → Prop} {t : Nat} (h : ¬ p t) :
    ∃ start, start ≤ t ∧ SinceLast p start t := by
  induction t with
  | zero =>
    refine ⟨0, le_rfl, .inl rfl, fun u _ hu => ?_⟩
    rwa [Nat.le_zero.mp hu]
  | succ t ih =>
    by_cases ht : p t
    · refine ⟨t + 1, le_rfl, .inr ⟨t, rfl, ht⟩, fun u hle hu => ?_⟩
      rwa [Nat.le_antisymm hu hle]
    · obtain ⟨start, hle, hstart, hnone⟩ := ih ht
      refine ⟨start, by omega, hstart, fun u hsu hu => ?_⟩
      rcases Nat.le_succ_iff.mp hu with hu | rfl
      · exact hnone u hsu hu
      · exact h

/-- If each `p` follows a `q` that no `p` accompanies, it follows the first `q` since the last
    `p`. -/
theorem isFirst_sinceLast {p q : Nat → Prop} {n : Nat}
    (hstep : ∀ k, k ≤ n → (p (k + 1) ↔ ¬ p k ∧ q k)) :
    p (n + 1) ↔ ∃ start, SinceLast p start n ∧ IsFirst q start n := by
  rw [hstep n le_rfl]
  constructor
  · rintro ⟨hn, hq⟩
    obtain ⟨start, hle, hsince⟩ := exists_sinceLast hn
    refine ⟨start, hsince, hle, hq, fun u hsu hun hqu => ?_⟩
    -- An earlier `q` would have been followed by a `p` after the last one.
    exact hsince.2 (u + 1) (by omega) hun ((hstep u hun.le).mpr ⟨hsince.2 u hsu hun.le, hqu⟩)
  · rintro ⟨start, hsince, hle, hq, -⟩
    exact ⟨hsince.2 n hle le_rfl, hq⟩

/-! ### Cores at a barrier -/

theorem Operation.Stage.sync {op : Operation} (h : op.Stage .syncWait) : ∃ id, op = .sync id := by
  cases op <;> simp [Stage, waitState, execState] at h ⊢

/-- A core requests a barrier from its decode to the end of the wait. -/
theorem Control.syncEn_iff {op : Operation} {s : State} (inputs : TimingInputs) (config : Config)
    (h : op.Stage s) :
    (of s op inputs config).syncEn = true ↔
      (∃ id, op = .sync id) ∧ (s = .decode ∨ s = .syncWait) := by
  obtain ⟨fetchCycle, timeMatch, fprocReady, syncReady⟩ := inputs
  cases s with
  | fetchWait =>
    simp only [of]
    split <;> simp [fetch, goto]
  | decode =>
    cases op with
    | pulseWrite trigger => cases trigger <;> simp [of, decode, pulse, goto]
    | unknown =>
      obtain ⟨widths, latency, policy⟩ := config
      cases policy <;> simp [of, decode, goto]
    | _ => simp [of, decode, alu, goto]
  | aluFprocWait | jumpFprocWait =>
    cases op <;> cases fprocReady <;> simp [of, feedback, fprocWait, alu, goto]
  | syncWait => simp [of, h.sync]
  | _ => simp [of, goto]

namespace Core

variable {c c' : Core} {i : Inputs} {id : UInt16}

/-- A core that requests a barrier holds its instruction in decode or in the wait. -/
theorem Sound.syncRequest_eq (hc : c.Sound) (h : c.lines.syncRequest = ⟨true, id⟩) :
    c.operation = .sync id ∧ (c.state = .decode ∨ c.state = .syncWait) := by
  rw [hc.settled.syncRequest, Request.mk.injEq, hc.settled.control,
    Control.syncEn_iff _ _ hc.stage] at h
  obtain ⟨⟨⟨id', hop⟩, hstate⟩, hid⟩ := h
  rw [hop] at hid
  exact ⟨hop.trans (congrArg _ hid), hstate⟩

theorem Tick.state_of_syncWait (h : Tick i c c') (hc : c.Sound) (hs : c.state = .syncWait) :
    c'.state = if c.lines.syncReady then .fetchWait else .syncWait := by
  rw [h.state, hc.settled.control, hs]
  rfl

/-- A core that requests a barrier waits at it in the next cycle, if it is not released. -/
theorem Tick.syncWait (h : Tick i c c') (hc : c.Sound) (hq : c.lines.syncRequest = ⟨true, id⟩)
    (hr : c.lines.syncReady = false) : c'.state = .syncWait ∧ c'.operation = .sync id := by
  obtain ⟨hop, hstate⟩ := hc.syncRequest_eq hq
  have hne : c.state ≠ .fetchWait := by rcases hstate with hs | hs <;> rw [hs] <;> decide
  refine ⟨?_, (h.operation_of_ne hc hne).trans hop⟩
  rcases hstate with hs | hs
  · rw [h.state, hc.settled.control, hs, hop]
    rfl
  · rw [h.state_of_syncWait hc hs, hr]
    rfl

/-- The id of the barrier that the edge of this cycle retires. -/
def retiredBarrier (c : Core) : Option UInt16 :=
  match c.retires, c.operation with
  | true, .sync id => some id
  | _, _ => none

/-- A barrier is retired by its release and by nothing else. -/
theorem Sound.retiredBarrier_eq (hc : c.Sound) :
    c.retiredBarrier =
      if c.state = .syncWait ∧ c.lines.syncReady = true then c.operation.requestId else none := by
  have hcontrol := hc.settled.control
  by_cases hs : c.state = .syncWait
  · obtain ⟨id, hop⟩ := (hs ▸ hc.stage : c.operation.Stage .syncWait).sync
    have hnext : c.control.nextState = if c.lines.syncReady then .fetchWait else .syncWait := by
      rw [hcontrol, hs]
      rfl
    cases hr : c.lines.syncReady <;> simp [retiredBarrier, retires, hs, hnext, hr, hop,
      Operation.requestId]
  · rw [if_neg fun h => hs h.1]
    cases hop : c.operation with
    | sync id =>
      have hkeeps : c.retires = false := by
        have hstage := hc.stage
        rw [hop] at hstage hcontrol
        rcases hstage with hs' | hs' | hs' | he
        · simp [retires, hs']
        · rw [hs', Control.of] at hcontrol
          simp [retires, hcontrol, Control.decode, Control.goto]
        · exact absurd hs' hs
        · cases he
      simp [retiredBarrier, hkeeps]
    | _ => simp [retiredBarrier, hop]

end Core

namespace Cluster

variable {s s' : Cluster} {m : Meas} {i : Nat} {c c' : Core}

/-- All participants request the barrier with this id. -/
def Unanimous (s : Cluster) (id : UInt16) : Prop :=
  ∀ i, s.barrier.isParticipant i = .ok true →
    ∃ c, s.core i = .ok c ∧ c.lines.syncRequest = ⟨true, id⟩

theorem unanimous_iff {id : UInt16} : s.barrier.Unanimous s.syncRequests id ↔ s.Unanimous id := by
  simp only [Barrier.Unanimous, Unanimous, syncRequests, List.getElem?_map,
    Option.map_eq_some_iff, core, Checked.get_eq_ok]

/-! ### Firing -/

/-- While the barrier fires, every participant waits at the same barrier. -/
def Gathered (s : Cluster) : Prop :=
  s.barrier.fire = true → ∃ id, ∀ {i}, s.barrier.isParticipant i = .ok true →
    ∃ c, s.cores[i]? = some c ∧ c.state = .syncWait ∧ c.operation = .sync id

theorem Tick.fire_iff (h : Tick m s s') : s'.barrier.fire = true ↔
    s.barrier.fire = false ∧ s.barrier.participants ≠ 0 ∧ ∃ id, s.Unanimous id := by
  rw [Barrier.fire_latch h.barrier]
  simp only [unanimous_iff]

theorem Tick.isParticipant (h : Tick m s s') (i : Nat) :
    s'.barrier.isParticipant i = s.barrier.isParticipant i := by
  rw [Barrier.isParticipant, Barrier.participants_latch h.barrier, Barrier.isParticipant]

theorem Tick.gathered (h : Tick m s s') (hs : s.Sound) : s'.Gathered := by
  intro hfire
  obtain ⟨hquiet, -, id, hall⟩ := h.fire_iff.mp hfire
  refine ⟨id, fun {i} hi => ?_⟩
  rw [h.isParticipant] at hi
  obtain ⟨c, hget, hreq⟩ := hall i hi
  have hc : s.cores[i]? = some c := Checked.get_eq_ok.mp hget
  obtain ⟨cl, r, hw⟩ := hs.wired hc
  obtain ⟨r', ready, c', -, -, hc', htick⟩ := h.core hc
  -- The barrier did not fire in this cycle, so nobody was released in it.
  have hready : c.lines.syncReady = false :=
    Except.ok.inj (hw.ready.symm.trans (Barrier.ready_of_quiet hquiet i))
  exact ⟨c', hc', htick.syncWait (hs.core hc).1 hreq hready⟩

theorem Reachable.gathered (hs : Reachable s) : s.Gathered := by
  refine (hs.invariant (P := Gathered) ?_ ?_ ?_).2
  · intro s _ h0 hfire
    rw [h0.fire] at hfire
    cases hfire
  · intro s k d words _ hd hgathered hfire
    obtain ⟨id, hall⟩ := hgathered hfire
    refine ⟨id, fun {i} hi => ?_⟩
    obtain ⟨c, hc, hstate, hop⟩ := hall hi
    by_cases hik : k = i
    · subst hik
      obtain rfl := Option.some.inj (hc.symm.trans hd)
      have hlt := (List.getElem?_eq_some_iff.mp hc).1
      exact ⟨_, List.getElem?_set_self hlt, hstate, hop⟩
    · exact ⟨c, (List.getElem?_set_ne hik).trans hc, hstate, hop⟩
  · intro m s s' hsound htick _
    exact htick.gathered hsound

theorem Sound.syncReady_iff (hs : s.Sound) (hc : s.cores[i]? = some c) :
    c.lines.syncReady = true ↔ s.barrier.fire = true ∧ s.barrier.isParticipant i = .ok true := by
  obtain ⟨cl, r, hw⟩ := hs.wired hc
  rw [← Barrier.ready_iff, hw.ready, Except.ok.injEq]

/-- A firing barrier lets a participant go on, which then requests nothing. -/
theorem Tick.released (h : Tick m s s') (hs : s.Sound) (hc : s.cores[i]? = some c)
    (hstate : c.state = .syncWait) (hfire : s.barrier.fire = true)
    (hi : s.barrier.isParticipant i = .ok true) :
    ∃ c', s'.core i = .ok c' ∧ c'.state = .fetchWait ∧ c'.lines.syncRequest.enable = false := by
  obtain ⟨r, ready, c', -, -, hc', htick⟩ := h.core hc
  have hsound := (hs.core hc).1
  have hnext : c'.state = .fetchWait := by
    rw [htick.state_of_syncWait hsound hstate, if_pos ((hs.syncReady_iff hc).mpr ⟨hfire, hi⟩)]
  refine ⟨c', Checked.get_eq_ok.mpr hc', hnext, ?_⟩
  have hsound' := htick.sound hsound
  rw [hsound'.settled.syncRequest, Bool.eq_false_iff, ne_eq, hsound'.settled.control,
    Control.syncEn_iff _ _ hsound'.stage, hnext]
  simp

/-- A core leaves its barrier only on the edge of a firing cycle, and only as a participant. -/
theorem Tick.fire_of_leaves (h : Tick m s s') (hs : s.Sound) (hc : s.cores[i]? = some c)
    (hstate : c.state = .syncWait) (hc' : s'.cores[i]? = some c') (hleaves : c'.state ≠ .syncWait) :
    s.barrier.fire = true ∧ s.barrier.isParticipant i = .ok true := by
  obtain ⟨r, ready, d, -, -, hd, htick⟩ := h.core hc
  obtain rfl := Option.some.inj (hc'.symm.trans hd)
  rw [htick.state_of_syncWait (hs.core hc).1 hstate] at hleaves
  by_contra hnot
  exact hleaves (if_neg (mt (hs.syncReady_iff hc).mp hnot))

/-! ### The sequence of barriers -/

/-- The ids of the barriers that core `i` retires in `n` cycles, in order. -/
def barrierLog (meas : Nat → Meas) (i : Nat) : Nat → Cluster → Checked (List UInt16)
  | 0, _ => .ok []
  | n + 1, s => do
    let c ← s.core i
    let rest ← barrierLog meas i n (← s.clockWith meas)
    return c.retiredBarrier.toList ++ rest

/-- In every cycle all participants retire the same barrier, or none does. -/
theorem Reachable.retiredBarrier_eq (hs : Reachable s) :
    ∃ o, ∀ {i c}, s.barrier.isParticipant i = .ok true → s.cores[i]? = some c →
      c.retiredBarrier = o := by
  cases hfire : s.barrier.fire with
  | false =>
    refine ⟨none, fun {i c} _ hc => ?_⟩
    have hready : ¬ c.lines.syncReady = true := by
      rw [hs.sound.syncReady_iff hc, hfire]
      simp
    rw [(hs.sound.core hc).1.retiredBarrier_eq, if_neg fun h => hready h.2]
  | true =>
    obtain ⟨id, hall⟩ := hs.gathered hfire
    refine ⟨some id, fun {i c} hi hc => ?_⟩
    obtain ⟨d, hd, hstate, hop⟩ := hall hi
    obtain rfl := Option.some.inj (hc.symm.trans hd)
    rw [(hs.sound.core hc).1.retiredBarrier_eq,
      if_pos ⟨hstate, (hs.sound.syncReady_iff hc).mpr ⟨hfire, hi⟩⟩, hop]
    rfl

variable {meas : Nat → Meas} {n : Nat}

theorem Reachable.barrierLog_eq (hs : Reachable s) (h : clockN meas n s = .ok s') :
    ∃ ids, ∀ i, s.barrier.isParticipant i = .ok true → i < s.cores.length →
      barrierLog meas i n s = .ok ids := by
  induction n generalizing s with
  | zero => exact ⟨[], fun _ _ _ => rfl⟩
  | succ n ih =>
    obtain ⟨s₁, h₁, hrest⟩ := Checked.bind_eq_ok.mp h
    have htick := tick_of_clock h₁
    obtain ⟨o, ho⟩ := hs.retiredBarrier_eq
    obtain ⟨ids, hids⟩ := ih (hs.clock _ h₁) hrest
    refine ⟨o.toList ++ ids, fun i hi hlt => ?_⟩
    have hc := List.getElem?_eq_getElem hlt
    have hlog := hids i ((htick.isParticipant i).trans hi) (htick.length ▸ hlt)
    rw [barrierLog, core, Checked.get_eq_ok.mpr hc, Checked.ok_bind, h₁, Checked.ok_bind, hlog,
      Checked.ok_bind, ho hi hc]
    rfl

/-! ### The cycles of a rendezvous -/

/-- The barrier fires in cycle `n` of the run from `s`. -/
def FiresAt (meas : Nat → Meas) (s : Cluster) (n : Nat) : Prop :=
  ∃ s', clockN meas n s = .ok s' ∧ s'.barrier.fire = true

/-- All participants request one common id in cycle `n` of the run from `s`. -/
def UnanimousAt (meas : Nat → Meas) (s : Cluster) (n : Nat) : Prop :=
  ∃ s' id, clockN meas n s = .ok s' ∧ s'.Unanimous id

theorem participants_of_clockN (h : clockN meas n s = .ok s') :
    s'.barrier.participants = s.barrier.participants :=
  eq_of_clockN (fun s => s.barrier.participants)
    (fun htick => Barrier.participants_latch htick.barrier) h

theorem firesAt_iff (h : clockN meas n s = .ok s') :
    FiresAt meas s n ↔ s'.barrier.fire = true := by
  constructor
  · rintro ⟨s₁, h₁, hfire⟩
    rwa [Except.ok.inj (h.symm.trans h₁)]
  · exact fun hfire => ⟨s', h, hfire⟩

theorem unanimousAt_iff (h : clockN meas n s = .ok s') :
    UnanimousAt meas s n ↔ ∃ id, s'.Unanimous id := by
  constructor
  · rintro ⟨s₁, id, h₁, hid⟩
    obtain rfl := Except.ok.inj (h.symm.trans h₁)
    exact ⟨id, hid⟩
  · exact fun ⟨id, hid⟩ => ⟨s', id, h, hid⟩

theorem firesAt_succ_iff (hne : s.barrier.participants ≠ 0) (h : clockN meas (n + 1) s = .ok s') :
    FiresAt meas s (n + 1) ↔ ¬ FiresAt meas s n ∧ UnanimousAt meas s n := by
  obtain ⟨s₁, h₁, hclock⟩ := clockN_succ_eq_ok.mp h
  have hne₁ : s₁.barrier.participants ≠ 0 := by rwa [participants_of_clockN h₁]
  rw [firesAt_iff h, firesAt_iff h₁, unanimousAt_iff h₁, (tick_of_clock hclock).fire_iff,
    Bool.not_eq_true]
  simp only [hne₁, ne_eq, not_false_eq_true, true_and]

/-- Barrier agreement. While the barrier fires, every participant is an attached core that waits at
    the same barrier, and leaves it on the next edge to request nothing; no core leaves a barrier
    otherwise. With at least one participant, the barrier fires exactly in the cycle after the first
    one since its last release in which all participants request one common id. So the
    participants retire the same sequence of barriers. -/
theorem barrier_agreement (hs : Reachable s) :
    (s.barrier.fire = true → ∃ id, ∀ i, s.barrier.isParticipant i = .ok true →
      ∃ c, s.core i = .ok c ∧ c.state = .syncWait ∧ c.operation = .sync id ∧
        ∀ m s', s.clock m = .ok s' →
          ∃ c', s'.core i = .ok c' ∧ c'.state = .fetchWait ∧ c'.lines.syncRequest.enable = false) ∧
    (∀ i c m s' c', s.core i = .ok c → c.state = .syncWait → s.clock m = .ok s' →
      s'.core i = .ok c' → c'.state ≠ .syncWait →
      s.barrier.fire = true ∧ s.barrier.isParticipant i = .ok true) ∧
    (∀ meas n, s.cycle + n < 2 ^ 64 → ∃ s', clockN meas n s = .ok s') ∧
    (∀ meas n s', s.barrier.participants ≠ 0 → clockN meas (n + 1) s = .ok s' →
      (s'.barrier.fire = true ↔
        ∃ start, SinceLast (FiresAt meas s) start n ∧ IsFirst (UnanimousAt meas s) start n)) ∧
    (∀ meas n s', clockN meas n s = .ok s' → ∃ ids, ∀ i, s.barrier.isParticipant i = .ok true →
      i < s.cores.length → barrierLog meas i n s = .ok ids) := by
  refine ⟨fun hfire => ?_, fun i c m s' c' hget hstate hclock hget' hleaves => ?_,
    hs.exists_clockN, fun meas n s' hne hrun => ?_, fun meas n s' hrun => hs.barrierLog_eq hrun⟩
  · obtain ⟨id, hall⟩ := hs.gathered hfire
    refine ⟨id, fun i hi => ?_⟩
    obtain ⟨c, hc, hstate, hop⟩ := hall hi
    refine ⟨c, Checked.get_eq_ok.mpr hc, hstate, hop, fun m s' hclock => ?_⟩
    exact (tick_of_clock hclock).released hs.sound hc hstate hfire hi
  · exact (tick_of_clock hclock).fire_of_leaves hs.sound (Checked.get_eq_ok.mp hget) hstate
      (Checked.get_eq_ok.mp hget') hleaves
  · have hstep : ∀ k, k ≤ n →
        (FiresAt meas s (k + 1) ↔ ¬ FiresAt meas s k ∧ UnanimousAt meas s k) := by
      intro k hk
      obtain ⟨s₁, h₁⟩ := exists_clockN_of_le hrun (Nat.succ_le_succ hk)
      exact firesAt_succ_iff hne h₁
    rw [← isFirst_sinceLast hstep, firesAt_iff hrun]

/-- Core 0 is at its barrier in cycle 2 and core 1, which jumps first, in cycle 5: the barrier fires
    in cycle 6, with both cores at it. -/
theorem barrier_agreement_late :
    ∃ s s', Reachable s ∧ clockN (fun _ => {}) 6 s = .ok s' ∧ s'.barrier.fire = true ∧
      (∃ start, SinceLast (FiresAt (fun _ => {}) s) start 5 ∧
        IsFirst (UnanimousAt (fun _ => {}) s) start 5) ∧
      ∃ id, ∀ i, s'.barrier.isParticipant i = .ok true →
        ∃ c, s'.core i = .ok c ∧ c.state = .syncWait ∧ c.operation = .sync id := by
  have hrun : ∃ s₀ c c' d d' s', Cluster.new .narrow 2 ⟨2, 3, #[0, 0, 0, 0]⟩ = pure s₀ ∧
      s₀.core 0 = .ok c ∧ c.loadProgram [Narrow.sync] = .ok (c', .ok ()) ∧
      (s₀.setCore 0 c').core 1 = .ok d ∧
      d.loadProgram [Narrow.jump, 0, Narrow.sync] = .ok (d', .ok ()) ∧
      clockN (fun _ => {}) 6 ((s₀.setCore 0 c').setCore 1 d') = .ok s' ∧ s'.barrier.fire = true ∧
      ((s₀.setCore 0 c').setCore 1 d').barrier.participants ≠ 0 :=
    ⟨_, _, _, _, _, _, rfl, rfl, rfl, rfl, rfl, rfl, rfl, by decide⟩
  obtain ⟨s₀, c, c', d, d', s', h₀, hc, hl, hd, hl', h, hfire, hne⟩ := hrun
  have hs := ((Reachable.new h₀).load hc hl).load hd hl'
  obtain ⟨id, hall⟩ := (barrier_agreement (hs.run h).1).1 hfire
  refine ⟨_, s', hs, h, hfire, ((barrier_agreement hs).2.2.2.1 _ 5 s' hne h).mp hfire, id,
    fun i hi => ?_⟩
  obtain ⟨core, hcore, hstate, hop, -⟩ := hall i hi
  exact ⟨core, hcore, hstate, hop⟩

end Cluster

end Sequencer
