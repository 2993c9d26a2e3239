import Mathlib
import Sequencer.Proofs.Cluster.Sound
import Sequencer.Proofs.Core.Interpreter

/-! Feedback requests are answered exactly once.

    The client of a core follows the core: it has a request exactly while the core waits for
    feedback (`Client.Serves`, kept by every tick). So a request that a core decodes waits for the
    first event of its source after the decode cycle, is answered by this event alone, and the core
    takes the answer in the same cycle (`feedback_answered_once`). -/

namespace Sequencer

/-- The core waits for feedback. -/
def State.AwaitsFeedback (s : State) : Prop := s = .aluFprocWait ∨ s = .jumpFprocWait

instance (s : State) : Decidable s.AwaitsFeedback := inferInstanceAs (Decidable (_ ∨ _))

theorem State.AwaitsFeedback.ne {s t : State} (hs : s.AwaitsFeedback) (ht : ¬ t.AwaitsFeedback) :
    s ≠ t := by
  rintro rfl
  exact ht hs

namespace Operation

/-- The id of a feedback request. -/
def feedbackId : Operation → Option UInt16
  | aluFproc _ _ _ id | jumpFproc _ _ _ id => some id
  | _ => none

variable {op : Operation}

theorem requestId_of_feedbackId {id : UInt16} (h : op.feedbackId = some id) :
    op.requestId = some id := by
  cases op <;> simp only [feedbackId, reduceCtorEq] at h <;> exact h

/-- The operations that wait for feedback are the ones that ask for it. -/
theorem awaitsFeedback_waitState : op.waitState.AwaitsFeedback ↔ op.feedbackId ≠ none := by
  cases op <;> simp [waitState, State.AwaitsFeedback, feedbackId]

theorem Stage.eq_waitState {s : State} (h : op.Stage s) (hs : s.AwaitsFeedback) :
    s = op.waitState := by
  rcases h with rfl | rfl | rfl | h
  · simp [State.AwaitsFeedback] at hs
  · simp [State.AwaitsFeedback] at hs
  · rfl
  · cases op <;> simp only [execState, Option.some.injEq, reduceCtorEq] at h <;> subst h <;>
      simp [State.AwaitsFeedback] at hs

theorem released_of_feedback (h : op.feedbackId ≠ none) (policy : UnknownPolicy)
    (inputs : TimingInputs) : op.released policy inputs = inputs.fprocReady := by
  cases op with
  | aluFproc | jumpFproc => rfl
  | _ => exact absurd rfl h

theorem execState_of_feedback (h : op.feedbackId ≠ none) : op.execState = some op.afterWait := by
  cases op with
  | aluFproc | jumpFproc => rfl
  | _ => exact absurd rfl h

theorem not_awaitsFeedback_afterWait : ¬ op.afterWait.AwaitsFeedback := by
  cases op <;> simp [afterWait, execState, State.AwaitsFeedback]

end Operation

namespace Control

variable {op : Operation} {s : State}

/-- A core requests feedback from the decode of a feedback instruction to the end of its wait. -/
theorem fprocEn_iff (inputs : TimingInputs) (config : Config) (h : op.Stage s) :
    (of s op inputs config).fprocEn = true ↔
      op.feedbackId ≠ none ∧ (s = .decode ∨ s.AwaitsFeedback) := by
  obtain ⟨fetchCycle, timeMatch, fprocReady, syncReady⟩ := inputs
  cases s with
  | fetchWait =>
    simp only [of]
    split <;> simp [State.AwaitsFeedback, fetch, goto]
  | decode =>
    cases op with
    | pulseWrite trigger =>
      cases trigger <;> simp [of, decode, pulse, goto, Operation.feedbackId]
    | unknown =>
      obtain ⟨widths, latency, policy⟩ := config
      cases policy <;> simp [of, decode, goto, Operation.feedbackId]
    | _ => simp [of, decode, alu, goto, Operation.feedbackId]
  | aluFprocWait | jumpFprocWait =>
    have heq := h.eq_waitState (by simp [State.AwaitsFeedback])
    cases op <;> simp only [Operation.waitState, reduceCtorEq] at heq
    simp [of, feedback, fprocWait, Operation.feedbackId, State.AwaitsFeedback]
  | _ => simp [of, goto, State.AwaitsFeedback]

/-- The answer goes to the ALU in the cycle in which it is ready. -/
theorem in1Sel_of_feedback {inputs : TimingInputs} (config : Config) (h : op.feedbackId ≠ none)
    (hr : inputs.fprocReady = true) :
    (of op.waitState op inputs config).in1Sel = some .fproc := by
  cases op with
  | aluFproc | jumpFproc => simp [of, Operation.waitState, feedback, fprocWait, hr, alu]
  | _ => exact absurd rfl h

/-- While no answer is taken, a core goes on waiting, and only a decode starts a wait. -/
theorem awaitsFeedback_nextState (inputs : TimingInputs) (config : Config) (h : op.Stage s) :
    (of s op inputs config).nextState.AwaitsFeedback ↔
      op.feedbackId ≠ none ∧ (s = .decode ∨ s.AwaitsFeedback ∧ inputs.fprocReady = false) := by
  have hwait : (of op.waitState op inputs config).nextState.AwaitsFeedback ↔
      op.feedbackId ≠ none ∧ inputs.fprocReady = false := by
    rw [nextState_waitState]
    by_cases hid : op.feedbackId = none
    · have hnot : ¬ op.waitState.AwaitsFeedback :=
        mt Operation.awaitsFeedback_waitState.mp (by simp [hid])
      split <;> simp [hid, hnot, Operation.not_awaitsFeedback_afterWait]
    · have hawaits := Operation.awaitsFeedback_waitState.mpr hid
      rw [Operation.released_of_feedback hid]
      cases inputs.fprocReady <;> simp [hid, hawaits, Operation.not_awaitsFeedback_afterWait]
  by_cases hs : s.AwaitsFeedback
  · obtain rfl := h.eq_waitState hs
    have hne : op.waitState ≠ .decode := hs.ne (by decide)
    simp [hwait, hs, hne]
  · rcases h with rfl | rfl | rfl | h
    · rw [nextState_fetchWait]
      split <;> simp [State.AwaitsFeedback]
    · by_cases hd : op.waitState = .decode
      · have hid : op.feedbackId = none := by
          by_contra hid
          exact hs (hd ▸ Operation.awaitsFeedback_waitState.mpr hid)
        rw [hd] at hwait
        simp [hwait, hid]
      · rw [nextState_decode op inputs config hd, Operation.awaitsFeedback_waitState]
        simp
    · have hid : op.feedbackId = none := by
        by_contra hid
        exact hs (Operation.awaitsFeedback_waitState.mpr hid)
      simp [hwait, hid]
    · rw [nextState_execState op inputs config h]
      refine iff_of_false (by decide) fun ⟨_, h'⟩ => ?_
      rcases h' with hd | ha
      · exact (op.execState_ne h).2 hd
      · exact hs ha.1

end Control

/-! ### Clients follow their cores -/

namespace Client

/-- The client has a request exactly while the core waits for feedback, with the id that the core
    asked for, and waits for the measurement line of the core exactly if this id is zero. -/
structure Serves (cl : Client) (c : Core) : Prop where
  busy : cl.state ≠ .idle ↔ c.state.AwaitsFeedback
  id : cl.state ≠ .idle → c.operation.feedbackId = some cl.id
  source : cl.state ≠ .idle → (cl.state = .waitMeas ↔ cl.id = 0)

variable {cl : Client} {q : Request}

theorem latch_idle (h : cl.state = .idle) (answered : Bool) :
    cl.latch q answered = if q.enable then
      { cl with id := q.id, state := if q.id = 0 then .waitMeas else .waitLut } else cl := by
  unfold latch
  rw [h]

theorem latch_busy (h : cl.state ≠ .idle) (answered : Bool) :
    cl.latch q answered = if answered then { cl with state := .idle } else cl := by
  unfold latch
  split
  case h_1 hidle => exact absurd hidle h
  all_goals rfl

end Client

namespace Core

variable {c c' : Core} {i : Inputs} {cl : Client}

/-- A tick keeps the client at the service of its core. -/
theorem Tick.serves (h : Tick i c c') (hc : c.Sound) (hs : cl.Serves c) :
    (cl.latch c.lines.fprocRequest c.lines.fprocResponse.ready).Serves c' := by
  have hen := Control.fprocEn_iff c.timing c.config hc.stage
  have hnext := Control.awaitsFeedback_nextState c.timing c.config hc.stage
  rw [← hc.settled.control] at hen hnext
  rw [← h.state] at hnext
  have hrequest := hc.settled.fprocRequest
  by_cases hidle : cl.state = .idle
  · have hnot : ¬ c.state.AwaitsFeedback := fun ha => hs.busy.mpr ha hidle
    simp only [hnot, or_false, false_and] at hen hnext
    rw [Client.latch_idle hidle, hrequest]
    by_cases hd : c.control.fprocEn = true
    · obtain ⟨hid, hstate⟩ := hen.mp hd
      obtain ⟨id, hid⟩ := Option.ne_none_iff_exists'.mp hid
      have hop := h.operation_of_ne hc (by rw [hstate]; decide)
      have hawaits := hnext.mpr ⟨by simp [hid], hstate⟩
      simp only [hd, if_true, Operation.requestId_of_feedbackId hid, Option.getD_some]
      refine ⟨?_, fun _ => by rw [hop, hid], fun _ => ?_⟩
      · simp only [hawaits, iff_true]
        split <;> simp
      · by_cases h0 : id = 0 <;> simp [h0]
    · have hawaits : ¬ c'.state.AwaitsFeedback := fun ha => hd (hen.mpr (hnext.mp ha))
      rw [if_neg hd]
      exact ⟨by simp [hidle, hawaits], fun hne => absurd hidle hne, fun hne => absurd hidle hne⟩
  · have hawaits := hs.busy.mp hidle
    have hid := hs.id hidle
    have hdecode : c.state ≠ .decode := hawaits.ne (by decide)
    have hready : c.timing.fprocReady = c.lines.fprocResponse.ready := rfl
    rw [Client.latch_busy hidle]
    simp only [hdecode, hawaits, hid, hready, false_or, true_and, ne_eq, reduceCtorEq,
      not_false_eq_true] at hnext
    cases hr : c.lines.fprocResponse.ready with
    | true =>
      rw [hr] at hnext
      exact ⟨by simp [hnext], fun h' => absurd rfl h', fun h' => absurd rfl h'⟩
    | false =>
      have hop := h.operation_of_ne hc (hawaits.ne (by decide))
      refine ⟨?_, fun _ => by rw [hop]; exact hid, hs.source⟩
      exact iff_of_true hidle (hnext.mpr hr)

end Core

namespace Cluster

variable {s s' : Cluster} {i : Nat} {c c' : Core} {cl : Client} {r : Response}

/-- Every client serves the core of its number. -/
def Served (s : Cluster) : Prop :=
  ∀ {i : Nat} {c : Core} {cl : Client},
    s.cores[i]? = some c → s.lut.clients[i]? = some cl → cl.Serves c

theorem Reachable.served (hs : Reachable s) : s.Served := by
  refine (hs.invariant (P := Served) ?_ ?_ ?_).2
  · intro s _ h0 i c cl hc hcl
    have hidle := h0.client hcl
    refine ⟨?_, fun hne => absurd hidle hne, fun hne => absurd hidle hne⟩
    rw [(h0.core hc).state]
    exact iff_of_false (fun hne => hne hidle) (by decide)
  · intro s k d words _ hd hserved i c cl hc hcl
    rcases getElem?_setCore hc with ⟨rfl, rfl⟩ | hc
    · exact { hserved hd hcl with }
    · exact hserved hc hcl
  · intro m s s' hsound htick hserved i c' cl' hc' hcl'
    obtain ⟨c, hc⟩ := htick.exists_core hc'
    obtain ⟨cl, r, hw⟩ := hsound.wired hc
    obtain ⟨d, r', ready, hd, hcore, hw'⟩ := htick.wired hc hw
    obtain rfl := Option.some.inj (hc'.symm.trans hd)
    obtain rfl := Option.some.inj (hcl'.symm.trans hw'.client)
    have hserves := hcore.serves (hsound.core hc).1 (hserved hc hw.client)
    rwa [hw.driven] at hserves

/-! ### Events and answers -/

/-- The cycle has the event that a request of core `i` with this id waits for, with `m` on the
    measurement lines. -/
def Arrives (m : Meas) (i : Nat) (id : UInt16) (s : Cluster) : Prop :=
  if id = 0 then m.valid.toNat.testBit i = true else s.lut.round.state = .ready

/-- `x` is the bit of core `i` in the word that answers its requests with this id: the measurement
    lines for id zero, else the table entry at the address of the round. -/
def Delivers (m : Meas) (i : Nat) (id : UInt16) (s : Cluster) (x : UInt32) : Prop :=
  ∃ word : UInt32,
    (if id = 0 then word = m.meas
      else s.lut.round.table.entries[s.lut.round.addr.toNat]? = some word) ∧
    x = (word.toNat.testBit i).toUInt32

theorem Wired.bit_eq (hw : Wired s i c cl r) (hi : i < 32) (w : UInt32) :
    cl.bit w = .ok (w.toNat.testBit i).toUInt32 := by
  obtain rfl := hw.number
  exact Client.bit_eq hi w

/-- A core that does not wait gets no answer. -/
theorem Wired.response_eq (hw : Wired s i c cl r) (hserves : cl.Serves c)
    (hc : ¬ c.state.AwaitsFeedback) : r = {} := by
  have hidle : cl.state = .idle := by
    by_contra hne
    exact hc (hserves.busy.mp hne)
  exact Except.ok.inj (hw.answer.symm.trans (Client.respond_idle hidle _ _))

/-- A core that waits is answered by the event of its request and by nothing else. -/
theorem Wired.answer_iff (hw : Wired s i c cl r) (hs : s.Sound) (hi : s.cores[i]? = some c)
    (hserves : cl.Serves c) (hc : c.state.AwaitsFeedback) {id : UInt16}
    (hid : c.operation.feedbackId = some id) :
    (Arrives s.lut.meas i id s → ∃ x, Delivers s.lut.meas i id s x ∧ r = ⟨true, x⟩) ∧
      (¬ Arrives s.lut.meas i id s → r = {}) := by
  have hlt : i < 32 := (List.getElem?_eq_some_iff.mp hi).1.trans_le hs.cores_le
  have hbusy := hserves.busy.mpr hc
  obtain rfl : id = cl.id := Option.some.inj (hid.symm.trans (hserves.id hbusy))
  have hanswer := hw.answer
  unfold Client.respond at hanswer
  unfold Arrives Delivers
  by_cases h0 : cl.id = 0
  · have hstate := (hserves.source hbusy).mpr h0
    simp only [hstate, hw.bit_eq hlt, Checked.ok_bind, Checked.pure_eq_ok] at hanswer
    simp only [h0, if_true]
    cases hv : s.lut.meas.valid.toNat.testBit i with
    | true =>
      rw [hv] at hanswer
      exact ⟨fun _ => ⟨_, ⟨_, rfl, rfl⟩, (Except.ok.inj hanswer).symm⟩, fun h => absurd rfl h⟩
    | false =>
      rw [hv] at hanswer
      exact ⟨fun h => absurd h Bool.false_ne_true, fun _ => (Except.ok.inj hanswer).symm⟩
  · have hstate : cl.state = .waitLut := by
      cases hcl : cl.state with
      | idle => exact absurd hcl hbusy
      | waitMeas => exact absurd ((hserves.source hbusy).mp hcl) h0
      | waitLut => rfl
    simp only [hstate, hw.bit_eq hlt] at hanswer
    simp only [h0, if_false]
    cases hround : s.lut.round.state with
    | ready =>
      obtain ⟨entry, hentry, hout⟩ := hs.round.output_eq hround
      rw [hout] at hanswer
      exact ⟨fun _ => ⟨_, ⟨entry, hentry, rfl⟩, (Except.ok.inj hanswer).symm⟩,
        fun h => absurd rfl h⟩
    | wait =>
      have hout : s.lut.round.output = none := by rw [Round.output, hround]
      rw [hout] at hanswer
      exact ⟨fun h => absurd h (by decide), fun _ => (Except.ok.inj hanswer).symm⟩

/-! ### A request over a run -/

/-- Core `i` decodes the operation in this cycle. -/
def Decodes (s : Cluster) (i : Nat) (op : Operation) : Prop :=
  ∃ c, s.core i = .ok c ∧ c.state = .decode ∧ c.operation = op

/-- Core `i` holds the operation until it is released. -/
def Waits (s : Cluster) (i : Nat) (op : Operation) : Prop :=
  ∃ c, s.core i = .ok c ∧ c.state = op.waitState ∧ c.operation = op

/-- The event of a request arrives in cycle `n` of the run from `s`. -/
def ArrivesAt (meas : Nat → Meas) (s : Cluster) (i : Nat) (id : UInt16) (n : Nat) : Prop :=
  ∃ s', clockN meas n s = .ok s' ∧ Arrives (meas s'.cycle) i id s'

variable {meas : Nat → Meas} {m : Meas} {op : Operation} {id : UInt16} {n : Nat}

theorem meas_of_clockN (h : clockN meas (n + 1) s = .ok s') : s'.lut.meas = meas s'.cycle := by
  obtain ⟨s₁, -, hclock⟩ := clockN_succ_eq_ok.mp h
  have htick := tick_of_clock hclock
  rw [htick.meas, htick.cycle]

theorem Tick.waits_of_decodes (h : Tick m s s') (hs : s.Sound) (hid : op.feedbackId = some id)
    (hd : s.Decodes i op) : s'.Waits i op := by
  obtain ⟨c, hget, hstate, rfl⟩ := hd
  have hc : s.cores[i]? = some c := Checked.get_eq_ok.mp hget
  obtain ⟨r, ready, c', -, -, hc', htick⟩ := h.core hc
  have hsound := (hs.core hc).1
  have hsome : c.operation.feedbackId ≠ none := by simp [hid]
  have hawaits := Operation.awaitsFeedback_waitState.mpr hsome
  have hne : c.operation.waitState ≠ .decode := hawaits.ne (by decide)
  refine ⟨c', Checked.get_eq_ok.mpr hc', ?_, htick.operation_of_ne hsound (by rw [hstate]; decide)⟩
  rw [htick.state, hsound.settled.control, hstate, Control.nextState_decode _ _ _ hne]

/-- What the distributor gives to a waiting core, in any cycle of a run after the first. -/
theorem Waits.response (hw : s'.Waits i op) (hs' : Reachable s') (hid : op.feedbackId = some id)
    (hmeas : s'.lut.meas = meas s'.cycle) :
    (Arrives (meas s'.cycle) i id s' →
      ∃ x, Delivers (meas s'.cycle) i id s' x ∧ s'.lut.response i = .ok ⟨true, x⟩) ∧
    (¬ Arrives (meas s'.cycle) i id s' → s'.lut.response i = .ok {}) := by
  obtain ⟨c, hget, hstate, rfl⟩ := hw
  have hc : s'.cores[i]? = some c := Checked.get_eq_ok.mp hget
  obtain ⟨cl, r, hwired⟩ := hs'.sound.wired hc
  have hawaits : c.state.AwaitsFeedback := by
    rw [hstate]
    exact Operation.awaitsFeedback_waitState.mpr (by simp [hid])
  have hanswer := hwired.answer_iff hs'.sound hc (hs'.served hc hwired.client) hawaits hid
  rw [← hmeas]
  refine ⟨fun harrives => ?_, fun hnot => ?_⟩
  · obtain ⟨x, hx, rfl⟩ := hanswer.1 harrives
    exact ⟨x, hx, Checked.get_eq_ok.mpr hwired.response⟩
  · obtain rfl := hanswer.2 hnot
    exact Checked.get_eq_ok.mpr hwired.response

/-- One cycle of a waiting core: it goes on waiting, or takes the answer that is there. -/
theorem Tick.waits_or_takes (h : Tick m s s') (hs : s.Sound) (hid : op.feedbackId = some id)
    (hw : s.Waits i op) {r : Response} (hr : s.lut.response i = .ok r) :
    if r.ready then
      ∃ c, s'.core i = .ok c ∧ op.execState = some c.state ∧ c.operation = op ∧
        c.alu.in1 = some r.data
    else s'.Waits i op := by
  obtain ⟨c, hget, hstate, rfl⟩ := hw
  have hc : s.cores[i]? = some c := Checked.get_eq_ok.mp hget
  obtain ⟨r', ready, c', -, -, hc', htick⟩ := h.core hc
  obtain ⟨cl, r₀, hwired⟩ := hs.wired hc
  obtain rfl : r₀ = r := Option.some.inj (hwired.response.symm.trans (Checked.get_eq_ok.mp hr))
  have hsound := (hs.core hc).1
  have hop : c'.operation = c.operation :=
    htick.operation_of_ne hsound (by rw [hstate]; exact c.operation.waitState_ne_fetchWait)
  have hcontrol : c.control = Control.of c.operation.waitState c.operation c.timing c.config := by
    rw [hsound.settled.control, hstate]
  have hready : c.timing.fprocReady = r₀.ready := congrArg Response.ready hwired.driven
  have hne : c.operation.feedbackId ≠ none := by simp [hid]
  have hnext : c'.state =
      if r₀.ready then c.operation.afterWait else c.operation.waitState := by
    rw [htick.state, hcontrol, Control.nextState_waitState, Operation.released_of_feedback hne,
      hready]
  split
  case isTrue hr =>
    rw [hr, if_pos rfl] at hnext
    refine ⟨c', Checked.get_eq_ok.mpr hc', ?_, hop, ?_⟩
    · rw [hnext, Operation.execState_of_feedback hne]
    · rw [hr] at hready
      have hsel : c.control.in1Sel = some .fproc :=
        hcontrol ▸ Control.in1Sel_of_feedback c.config hne hready
      rw [htick.alu]
      change c.lines.aluIn1 = _
      rw [hsound.settled.aluIn1, hsel, hwired.driven]
      rfl
  case isFalse hr =>
    rw [if_neg hr] at hnext
    exact ⟨c', Checked.get_eq_ok.mpr hc', hnext, hop⟩

/-- A request waits as long as its event has not arrived. -/
theorem waits_of_clockN (hs : Reachable s) (hid : op.feedbackId = some id) (hd : s.Decodes i op) :
    ∀ {n : Nat} {s' : Cluster}, clockN meas (n + 1) s = .ok s' →
    (∀ k, 1 ≤ k → k < n + 1 → ¬ ArrivesAt meas s i id k) → s'.Waits i op
  | 0, s', hrun, _ => by
    obtain ⟨s₁, h₁, hclock⟩ := clockN_succ_eq_ok.mp hrun
    obtain rfl := Except.ok.inj h₁
    exact (tick_of_clock hclock).waits_of_decodes hs.sound hid hd
  | n + 1, s', hrun, hnot => by
    obtain ⟨s₁, h₁, hclock⟩ := clockN_succ_eq_ok.mp hrun
    have hw := waits_of_clockN hs hid hd h₁ fun k hk hlt => hnot k hk (by omega)
    have hs₁ := (hs.run h₁).1
    have harrives : ¬ Arrives (meas s₁.cycle) i id s₁ := fun h =>
      hnot (n + 1) (by omega) (by omega) ⟨s₁, h₁, h⟩
    have hr := (hw.response hs₁ hid (meas_of_clockN h₁)).2 harrives
    exact (tick_of_clock hclock).waits_or_takes hs₁.sound hid hw hr

theorem waits_until (hs : Reachable s) (hid : op.feedbackId = some id) (hd : s.Decodes i op)
    (hn : 1 ≤ n) (hrun : clockN meas n s = .ok s')
    (hnot : ∀ k, 1 ≤ k → k < n → ¬ ArrivesAt meas s i id k) :
    s'.Waits i op ∧ s'.lut.meas = meas s'.cycle := by
  obtain ⟨n, rfl⟩ := Nat.exists_eq_add_of_le' hn
  exact ⟨waits_of_clockN hs hid hd hrun hnot, meas_of_clockN hrun⟩

/-- The first event after the decode cycle answers the request, and the core takes the answer. -/
theorem takes_first (hs : Reachable s) (hid : op.feedbackId = some id) (hd : s.Decodes i op)
    {w : Nat} {s' : Cluster} (hrun : clockN meas w s = .ok s')
    (hw : IsFirst (ArrivesAt meas s i id) 1 w) :
    s'.Waits i op ∧ ∃ x, Delivers (meas s'.cycle) i id s' x ∧ s'.lut.response i = .ok ⟨true, x⟩ ∧
      ∀ {s''}, clockN meas (w + 1) s = .ok s'' →
        ∃ c, s''.core i = .ok c ∧ op.execState = some c.state ∧ c.operation = op ∧
          c.alu.in1 = some x := by
  have hs' := (hs.run hrun).1
  obtain ⟨hwait, hmeas⟩ := waits_until hs hid hd hw.1 hrun hw.2.2
  obtain ⟨s₁, h₁, harrives⟩ := hw.2.1
  obtain rfl := Except.ok.inj (hrun.symm.trans h₁)
  obtain ⟨x, hx, hr⟩ := (hwait.response hs' hid hmeas).1 harrives
  refine ⟨hwait, x, hx, hr, fun hrun'' => ?_⟩
  obtain ⟨s₁, h₁, hclock⟩ := clockN_succ_eq_ok.mp hrun''
  obtain rfl := Except.ok.inj (hrun.symm.trans h₁)
  exact (tick_of_clock hclock).waits_or_takes hs'.sound hid hwait hr

/-- A core that starts to wait for feedback has decoded a request. -/
theorem exists_decodes (hs : Reachable s) {a : Nat} {sₐ : Cluster} (ha : clockN meas a s = .ok sₐ)
    (hc : sₐ.cores[i]? = some c) (hnot : ¬ c.state.AwaitsFeedback) (n : Nat) :
    ∀ {s' : Cluster} {c' : Core}, clockN meas (a + n) s = .ok s' → s'.cores[i]? = some c' →
    c'.state.AwaitsFeedback →
    ∃ d s₁ op, a ≤ d ∧ d < a + n ∧ clockN meas d s = .ok s₁ ∧ op.feedbackId ≠ none ∧
      s₁.Decodes i op := by
  induction n with
  | zero =>
    intro s' c' hrun hc' hawaits
    obtain rfl := Except.ok.inj (ha.symm.trans hrun)
    obtain rfl := Option.some.inj (hc.symm.trans hc')
    exact absurd hawaits hnot
  | succ n ih =>
    intro s' c' hrun hc' hawaits
    obtain ⟨s₁, h₁, hclock⟩ := clockN_succ_eq_ok.mp hrun
    have htick := tick_of_clock hclock
    obtain ⟨c₁, hc₁⟩ := htick.exists_core hc'
    by_cases hawaits₁ : c₁.state.AwaitsFeedback
    · obtain ⟨d, s₂, op, had, hdn, hrest⟩ := ih h₁ hc₁ hawaits₁
      exact ⟨d, s₂, op, had, by omega, hrest⟩
    · obtain ⟨r, ready, d, -, -, hd, hcore⟩ := htick.core hc₁
      obtain rfl := Option.some.inj (hc'.symm.trans hd)
      have hsound := ((hs.run h₁).1.sound.core hc₁).1
      rw [hcore.state, hsound.settled.control, Control.awaitsFeedback_nextState _ _ hsound.stage]
        at hawaits
      obtain ⟨hid, hstate | hstate⟩ := hawaits
      · exact ⟨a + n, s₁, c₁.operation, by omega, by omega, h₁, hid, c₁,
          Checked.get_eq_ok.mpr hc₁, hstate, rfl⟩
      · exact absurd hstate.1 hawaits₁

/-- What happens to the request of core `i` that is decoded in the first cycle of the run from `s`.
    Cycles are counted from this one. -/
structure AnsweredOnce (meas : Nat → Meas) (s : Cluster) (i : Nat) (op : Operation) (id : UInt16) :
    Prop where
  /-- Whatever the decode cycle presents is missed. -/
  missed : s.lut.response i = .ok {}
  /-- Until its event arrives the request is not answered, and the core waits. -/
  waits : ∀ {n s'}, 1 ≤ n → clockN meas n s = .ok s' →
    (∀ k, 1 ≤ k → k ≤ n → ¬ ArrivesAt meas s i id k) →
    s'.Waits i op ∧ s'.lut.response i = .ok {}
  /-- The first event after the decode cycle answers it, with the bit that belongs to the core. -/
  answered : ∀ {w s'}, clockN meas w s = .ok s' → IsFirst (ArrivesAt meas s i id) 1 w →
    s'.Waits i op ∧ ∃ x, Delivers (meas s'.cycle) i id s' x ∧ s'.lut.response i = .ok ⟨true, x⟩ ∧
      -- The core takes the answer in this cycle: the edge stores it as an ALU operand.
      ∀ {s''}, clockN meas (w + 1) s = .ok s'' →
        ∃ c, s''.core i = .ok c ∧ op.execState = some c.state ∧ c.operation = op ∧
          c.alu.in1 = some x
  /-- Any later answer to the core is one to a later request. -/
  once : ∀ {w n s' r}, IsFirst (ArrivesAt meas s i id) 1 w → w < n → clockN meas n s = .ok s' →
    s'.lut.response i = .ok r → r.ready = true →
    ∃ d s₁ op', w < d ∧ d < n ∧ clockN meas d s = .ok s₁ ∧ op'.feedbackId ≠ none ∧
      s₁.Decodes i op'

theorem AnsweredOnce.of_decodes (hs : Reachable s) (meas : Nat → Meas)
    (hid : op.feedbackId = some id) (hd : s.Decodes i op) : AnsweredOnce meas s i op id := by
  refine ⟨?_, fun hn hrun hnot => ?_, takes_first hs hid hd,
    fun {w n s' r} hw hlt hrun hr hready => ?_⟩
  · obtain ⟨c, hget, hstate, -⟩ := hd
    have hc : s.cores[i]? = some c := Checked.get_eq_ok.mp hget
    obtain ⟨cl, r, hwired⟩ := hs.sound.wired hc
    have hnot : ¬ c.state.AwaitsFeedback := by
      rw [hstate]
      decide
    obtain rfl := hwired.response_eq (hs.served hc hwired.client) hnot
    exact Checked.get_eq_ok.mpr hwired.response
  · have hs' := (hs.run hrun).1
    obtain ⟨hwait, hmeas⟩ := waits_until hs hid hd hn hrun fun k hk hlt => hnot k hk hlt.le
    refine ⟨hwait, (hwait.response hs' hid hmeas).2 fun harrives => ?_⟩
    exact hnot _ hn le_rfl ⟨_, hrun, harrives⟩
  · obtain ⟨s₁, h₁⟩ := exists_clockN_of_le hrun (Nat.succ_le_of_lt hlt)
    obtain ⟨s₀, h₀, -⟩ := clockN_succ_eq_ok.mp h₁
    obtain ⟨-, x, -, -, htakes⟩ := takes_first hs hid hd h₀ hw
    obtain ⟨c₁, hget₁, hexec, -⟩ := htakes h₁
    have hc₁ : s₁.cores[i]? = some c₁ := Checked.get_eq_ok.mp hget₁
    have hnot : ¬ c₁.state.AwaitsFeedback := by
      rw [Operation.execState_of_feedback (by simp [hid]), Option.some.injEq] at hexec
      rw [← hexec]
      exact Operation.not_awaitsFeedback_afterWait
    obtain ⟨k, rfl⟩ := Nat.exists_eq_add_of_le (Nat.succ_le_of_lt hlt)
    have hs' := (hs.run hrun).1
    obtain ⟨c', hc'⟩ := exists_core_of_clockN h₁ hrun hc₁
    obtain ⟨cl, r', hwired⟩ := hs'.sound.wired hc'
    obtain rfl : r' = r := Option.some.inj (hwired.response.symm.trans (Checked.get_eq_ok.mp hr))
    have hawaits : c'.state.AwaitsFeedback := by
      by_contra hidle
      rw [hwired.response_eq (hs'.served hc' hwired.client) hidle] at hready
      cases hready
    exact exists_decodes hs h₁ hc₁ hnot k hrun hc' hawaits

/-- Feedback requests are answered exactly once, from the right event. In every reachable cluster a
    client has a request exactly while its core waits for feedback, with the id of the core's
    instruction, and waits for the measurement line exactly if this id is zero. A request that a
    core decodes is answered by the first event after the decode cycle, and by this event alone. -/
theorem feedback_answered_once (hs : Reachable s) :
    (∀ i c, s.core i = .ok c → ∃ cl, s.lut.client i = .ok cl ∧
      (cl.state ≠ .idle ↔ c.state = .aluFprocWait ∨ c.state = .jumpFprocWait) ∧
      (cl.state ≠ .idle →
        c.operation.feedbackId = some cl.id ∧ (cl.state = .waitMeas ↔ cl.id = 0))) ∧
    (∀ meas n, s.cycle + n < 2 ^ 64 → ∃ s', clockN meas n s = .ok s') ∧
    ∀ meas i op id, op.feedbackId = some id → s.Decodes i op → AnsweredOnce meas s i op id := by
  refine ⟨fun i c hget => ?_, hs.exists_clockN,
    fun meas i op id hid hd => .of_decodes hs meas hid hd⟩
  have hc : s.cores[i]? = some c := Checked.get_eq_ok.mp hget
  obtain ⟨cl, r, hwired⟩ := hs.sound.wired hc
  have hserves := hs.served hc hwired.client
  exact ⟨cl, Checked.get_eq_ok.mpr hwired.client, hserves.busy,
    fun hbusy => ⟨hserves.id hbusy, hserves.source hbusy⟩⟩

/-- A core asks for the table in the very cycle in which a round is presented, and has to wait for
    the next one. -/
theorem feedback_answered_next_round :
    ∃ s s', Reachable s ∧ s.lut.round.state = .ready ∧
      s.Decodes 0 (.aluFproc .id1 (.imm 0) 1 1) ∧
      AnsweredOnce (fun t => ⟨1, if t == 1 || t == 4 then 1 else 0⟩) s 0
        (.aluFproc .id1 (.imm 0) 1 1) 1 ∧
      clockN (fun t => ⟨1, if t == 1 || t == 4 then 1 else 0⟩) 3 s = .ok s' ∧
      s'.lut.response 0 = .ok ⟨true, 1⟩ := by
  have hrun : ∃ s₀ c c' s₁ s₂ s', Cluster.new .narrow 1 ⟨1, 1, #[0, 1]⟩ = pure s₀ ∧
      s₀.core 0 = .ok c ∧ c.loadProgram [Narrow.readFproc] = .ok (c', .ok ()) ∧
      (s₀.setCore 0 c').clock ⟨1, 1⟩ = .ok s₁ ∧ s₁.clock ⟨1, 0⟩ = .ok s₂ ∧
      s₂.lut.round.state = .ready ∧ s₂.Decodes 0 (.aluFproc .id1 (.imm 0) 1 1) ∧
      clockN (fun t => ⟨1, if t == 1 || t == 4 then 1 else 0⟩) 3 s₂ = .ok s' ∧
      s'.lut.response 0 = .ok ⟨true, 1⟩ :=
    ⟨_, _, _, _, _, _, rfl, rfl, rfl, rfl, rfl, rfl, ⟨_, rfl, rfl, rfl⟩, rfl, rfl⟩
  obtain ⟨s₀, c, c', s₁, s₂, s', h₀, hc, hl, h₁, h₂, hround, hd, hrest⟩ := hrun
  have hs : Reachable s₂ := (((Reachable.new h₀).load hc hl).clock _ h₁).clock _ h₂
  exact ⟨s₂, s', hs, hround, hd, (feedback_answered_once hs).2.2 _ 0 _ 1 rfl hd, hrest⟩

end Cluster

end Sequencer
