import Sequencer.Core.Control

/-! The stages of an instruction.

    An operation is decoded, waits in its waiting state until it is released, and passes through its
    execution state if it uses the ALU. Two tables, `waitState` and `execState`, and the condition
    `released` describe this for every operation at once, and the control unit follows them:

        FETCH_WAIT ──▶ DECODE ──▶ waitState ──▶ execState ──▶ FETCH_WAIT
                                   │ not released ↺

    For most operations the waiting state is DECODE itself. -/

namespace Sequencer

namespace Operation

/-- The state in which a core holds the operation until it is released. -/
def waitState : Operation → State
  | aluFproc _ _ _ _ => .aluFprocWait
  | jumpFproc _ _ _ _ => .jumpFprocWait
  | sync _ => .syncWait
  | _ => .decode

/-- The state in which a core uses the ALU result of the operation. -/
def execState : Operation → Option State
  | regAlu _ _ _ _ | aluFproc _ _ _ _ => some .aluExec
  | jumpCond _ _ _ _ | jumpFproc _ _ _ _ => some .jumpCondExec
  | incQclk _ _ => some .incQclkExec
  | _ => none

/-- Does a cycle in the waiting state end the wait? -/
def released (policy : UnknownPolicy) (inputs : TimingInputs) : Operation → Bool
  | aluFproc _ _ _ _ | jumpFproc _ _ _ _ => inputs.fprocReady
  | sync _ => inputs.syncReady
  | pulseWrite trigger _ _ _ => !trigger || inputs.timeMatch
  | done => false
  | unknown _ => policy = .fallThrough
  | _ => true

/-- The states in which a core may hold the operation. -/
def Stage (op : Operation) (s : State) : Prop :=
  s = .fetchWait ∨ s = .decode ∨ s = op.waitState ∨ op.execState = some s

/-- The state after the wait. -/
def afterWait (op : Operation) : State := op.execState.getD .fetchWait

theorem waitState_ne_fetchWait (op : Operation) : op.waitState ≠ .fetchWait := by
  cases op <;> simp [waitState]

theorem execState_ne (op : Operation) {s : State} (h : op.execState = some s) :
    s ≠ .fetchWait ∧ s ≠ .decode := by
  cases op <;> simp only [execState, Option.some.injEq, reduceCtorEq] at h <;> subst h <;> simp

end Operation

namespace Control

variable (op : Operation) (inputs : TimingInputs) (config : Config)

/-! ### The next state -/

theorem nextState_fetchWait :
    (of .fetchWait op inputs config).nextState =
      if config.memReadLatency ≤ inputs.fetchCycle then .decode else .fetchWait := by
  simp only [of]
  split <;> rfl

/-- An operation with a waiting state of its own goes there at once. -/
theorem nextState_decode (h : op.waitState ≠ .decode) :
    (of .decode op inputs config).nextState = op.waitState := by
  cases op with
  | aluFproc | jumpFproc | sync => rfl
  | _ => exact absurd rfl h

theorem nextState_waitState :
    (of op.waitState op inputs config).nextState =
      if op.released config.unknownOpcode inputs then op.afterWait else op.waitState := by
  obtain ⟨fetchCycle, timeMatch, fprocReady, syncReady⟩ := inputs
  cases op with
  | aluFproc | jumpFproc => cases fprocReady <;> rfl
  | sync => cases syncReady <;> rfl
  | pulseWrite trigger => cases trigger <;> cases timeMatch <;> rfl
  | unknown =>
    obtain ⟨widths, latency, policy⟩ := config
    cases policy <;> rfl
  | _ => rfl

theorem nextState_execState {s : State} (h : op.execState = some s) :
    (of s op inputs config).nextState = .fetchWait := by
  cases op <;> simp only [Operation.execState, Option.some.injEq, reduceCtorEq] at h <;>
    subst h <;> rfl

/-- Only a fetch that has waited for the memory loads an instruction. -/
theorem instrLoad_iff {s : State} :
    (of s op inputs config).instrLoad = true ↔
      s = .fetchWait ∧ config.memReadLatency ≤ inputs.fetchCycle := by
  obtain ⟨fetchCycle, timeMatch, fprocReady, syncReady⟩ := inputs
  cases s with
  | fetchWait =>
    simp only [of, true_and]
    split
    case isTrue h => exact ⟨fun _ => h, fun _ => rfl⟩
    case isFalse h => exact ⟨nofun, fun hle => absurd hle h⟩
  | decode =>
    cases op with
    | pulseWrite trigger => cases trigger <;> simp [of, decode, pulse, goto]
    | unknown =>
      obtain ⟨widths, latency, policy⟩ := config
      cases policy <;> simp [of, decode, goto]
    | _ => simp [of, decode, alu, goto]
  | aluFprocWait | jumpFprocWait =>
    cases op <;> cases fprocReady <;> simp [of, feedback, fprocWait, alu, goto]
  | _ => simp [of, goto]

/-- The control unit keeps to the stages of the operation it holds. -/
theorem stage_nextState {s : State} (h : op.Stage s) :
    op.Stage (of s op inputs config).nextState := by
  have hafter : op.Stage op.afterWait := by
    unfold Operation.afterWait
    cases he : op.execState with
    | none => exact .inl rfl
    | some s => exact .inr (.inr (.inr he))
  have hwait : op.Stage (of op.waitState op inputs config).nextState := by
    rw [nextState_waitState]
    split
    · exact hafter
    · exact .inr (.inr (.inl rfl))
  rcases h with rfl | rfl | rfl | h
  · rw [nextState_fetchWait]
    split
    · exact .inr (.inl rfl)
    · exact .inl rfl
  · by_cases hd : op.waitState = .decode
    · rwa [hd] at hwait
    · rw [nextState_decode op inputs config hd]
      exact .inr (.inr (.inl rfl))
  · exact hwait
  · rw [nextState_execState op inputs config h]
    exact .inl rfl

/-! ### Quiet cycles -/

/-- Lines of a cycle that moves neither the counter nor a register and loads no timebase. -/
structure Quiet (k : Control) : Prop where
  instrLoad : k.instrLoad = false
  pcInc : k.pcInc = false
  pcLoad : k.pcLoad = false
  pcLoadCond : k.pcLoadCond = false
  regWrite : k.regWrite = false
  qclkLoad : k.qclkLoad = false

theorem quiet_fetchWait (h : ¬ config.memReadLatency ≤ inputs.fetchCycle) :
    Quiet (of .fetchWait op inputs config) := by
  rw [of, if_neg h]
  exact ⟨rfl, rfl, rfl, rfl, rfl, rfl⟩

theorem quiet_decode (h : op.waitState ≠ .decode) : Quiet (of .decode op inputs config) := by
  cases op with
  | aluFproc | jumpFproc | sync => exact ⟨rfl, rfl, rfl, rfl, rfl, rfl⟩
  | _ => exact absurd rfl h

/-- Waiting is quiet; only a jump acts when it is released. -/
theorem quiet_waitState (h : ∀ addr, op ≠ .jump addr) :
    Quiet (of op.waitState op inputs config) := by
  obtain ⟨fetchCycle, timeMatch, fprocReady, syncReady⟩ := inputs
  cases op with
  | jump addr => exact absurd rfl (h addr)
  | aluFproc | jumpFproc => cases fprocReady <;> exact ⟨rfl, rfl, rfl, rfl, rfl, rfl⟩
  | pulseWrite trigger => cases trigger <;> exact ⟨rfl, rfl, rfl, rfl, rfl, rfl⟩
  | unknown =>
    obtain ⟨widths, latency, policy⟩ := config
    cases policy <;> exact ⟨rfl, rfl, rfl, rfl, rfl, rfl⟩
  | _ => exact ⟨rfl, rfl, rfl, rfl, rfl, rfl⟩

end Control

end Sequencer
