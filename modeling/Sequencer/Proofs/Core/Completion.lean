import Mathlib
import Sequencer.Proofs.Core.Interpreter
import Sequencer.Proofs.Core.Stages

/-! The rules of the interpreter by stage.

    Every instruction waits from the cycle `waitStart` on until it is released, and its release
    decides what it leaves behind (`finish`). In this form the rules of `Step` are one rule
    (`step_iff`), which the stages of a core can be compared with. -/

namespace Sequencer

namespace Visible

variable (v : Visible)

theorem qclkAt_self : v.qclkAt v.cycle = v.qclk := by
  simp [qclkAt]

theorem qclkAt_succ {t : Nat} (h : v.cycle ≤ t) : v.qclkAt (t + 1) = v.qclkAt t + 1 := by
  rw [qclkAt, qclkAt, Nat.sub_add_comm h, UInt32.add_assoc]
  exact congrArg (v.qclk + ·) (UInt32.ofNat_add _ _)

end Visible

namespace Operation

variable (config : Config) (inputs : Nat → Inputs) (v : Visible)

/-- Is an instruction that started in the view `v` released in cycle `t`, if it waits then? -/
def ReleasedAt (op : Operation) (t : Nat) : Prop :=
  op.released config.unknownOpcode
    { timeMatch := v.qclkAt t == Core.cmdTimeOf op
      fprocReady := (inputs t).response.ready
      syncReady := (inputs t).syncReady } = true

/-- The first cycle of the wait. -/
def waitStart (op : Operation) : Nat :=
  v.cycle + config.memReadLatency.toNat + if op.waitState = .decode then 1 else 2

/-- The ALU result of an instruction released in cycle `w`. -/
def result (w : Nat) : Operation → UInt32
  | regAlu op in0 in1 _ | jumpCond op in0 in1 _ => op.apply (v.operand in0) (v.reg in1)
  | aluFproc op in0 _ _ | jumpFproc op in0 _ _ =>
    op.apply (v.operand in0) (inputs w).response.data
  | incQclk op in0 => op.apply (v.operand in0) (v.qclkAt w)
  | _ => 0

/-- The view after an instruction released in cycle `w`. -/
def finish (w : Nat) (op : Operation) : Visible :=
  match op with
  | regAlu _ _ _ write | aluFproc _ _ write _ =>
    (v.next config (w + 2)).write write (op.result inputs v w)
  | jumpCond _ _ _ addr | jumpFproc _ _ addr _ =>
    (v.next config (w + 2)).branch addr (op.result inputs v w)
  | incQclk _ _ => { v.next config (w + 2) with qclk := op.result inputs v w + 2 }
  | jump addr => (v.next config (w + 1)).goto addr
  | _ => v.next config (w + 1)

end Operation

variable {config : Config} {inputs : Nat → Inputs} {v v' : Visible} {op : Operation} {w : Nat}

namespace Operation

theorem waitStart_of_decode (h : op.waitState = .decode) :
    op.waitStart config v = v.cycle + config.memReadLatency.toNat + 1 := by
  rw [waitStart, if_pos h]

theorem waitStart_of_ne (h : op.waitState ≠ .decode) :
    op.waitStart config v = v.cycle + config.memReadLatency.toNat + 2 := by
  rw [waitStart, if_neg h]

/-- A trigger waits for its command time. -/
theorem releasedAt_trigger (cmdTime : UInt32) (reg : UInt8) (fields : Bundle PulseField) :
    (pulseWrite true cmdTime reg fields).ReleasedAt config inputs v =
      fun t => v.qclkAt t = cmdTime := by
  funext t
  have h : (pulseWrite true cmdTime reg fields).ReleasedAt config inputs v t ↔
      (v.qclkAt t == cmdTime) = true := Iff.rfl
  exact propext (h.trans beq_iff_eq)

theorem lt_waitStart : v.cycle < op.waitStart config v := by
  unfold waitStart
  split <;> omega

end Operation

theorem isFirst_start {p : Nat → Prop} {start : Nat} (h : p start) : IsFirst p start start :=
  ⟨le_refl _, h, fun _ hle hlt => absurd hlt (Nat.not_lt.mpr hle)⟩

/-- Released at once, in the decode cycle. -/
theorem isFirst_decode (hd : op.waitState = .decode) (h : ∀ t, op.ReleasedAt config inputs v t) :
    IsFirst (op.ReleasedAt config inputs v) (op.waitStart config v)
      (v.cycle + config.memReadLatency.toNat + 1) := by
  rw [Operation.waitStart_of_decode hd]
  exact isFirst_start (h _)

/-- Each rule waits for a release and leaves what the release decides. -/
theorem isFirst_of_step (h : Step config inputs v op v') :
    ∃ w, IsFirst (op.ReleasedAt config inputs v) (op.waitStart config v) w ∧
      v' = op.finish config inputs v w := by
  cases h with
  | regAlu | jump | jumpCond | incQclk | pulseWrite | pulseReset =>
    exact ⟨_, isFirst_decode rfl (fun _ => rfl), rfl⟩
  | aluFproc _ _ _ _ w hw | jumpFproc _ _ _ _ w hw | sync _ w hw => exact ⟨w, hw, rfl⟩
  | pulseTrigger cmdTime reg fields w hw =>
    refine ⟨w, ?_, rfl⟩
    rw [Operation.releasedAt_trigger, Operation.waitStart_of_decode rfl]
    exact hw
  | unknown bits hpolicy =>
    exact ⟨_, isFirst_decode rfl (fun _ => decide_eq_true hpolicy), rfl⟩

theorem step_finish
    (hw : IsFirst (op.ReleasedAt config inputs v) (op.waitStart config v) w) :
    Step config inputs v op (op.finish config inputs v w) := by
  cases op with
  | regAlu op in0 in1 write =>
    rw [hw.unique (isFirst_decode rfl fun _ => rfl)]
    exact .regAlu op in0 in1 write
  | jump addr =>
    rw [hw.unique (isFirst_decode rfl fun _ => rfl)]
    exact .jump addr
  | jumpCond op in0 in1 addr =>
    rw [hw.unique (isFirst_decode rfl fun _ => rfl)]
    exact .jumpCond op in0 in1 addr
  | aluFproc op in0 write id => exact .aluFproc op in0 write id w hw
  | jumpFproc op in0 addr id => exact .jumpFproc op in0 addr id w hw
  | incQclk op in0 =>
    rw [hw.unique (isFirst_decode rfl fun _ => rfl)]
    exact .incQclk op in0
  | sync id => exact .sync id w hw
  | pulseWrite trigger cmdTime reg fields =>
    cases trigger with
    | false =>
      rw [hw.unique (isFirst_decode rfl fun _ => rfl)]
      exact .pulseWrite cmdTime reg fields
    | true =>
      rw [Operation.releasedAt_trigger, Operation.waitStart_of_decode rfl] at hw
      exact .pulseTrigger cmdTime reg fields w hw
  | done => exact absurd hw.2.1 Bool.false_ne_true
  | pulseReset =>
    rw [hw.unique (isFirst_decode rfl fun _ => rfl)]
    exact .pulseReset
  | unknown bits =>
    have hpolicy : config.unknownOpcode = .fallThrough := of_decide_eq_true hw.2.1
    rw [hw.unique (isFirst_decode rfl fun _ => hw.2.1)]
    exact .unknown bits hpolicy

/-- An instruction waits for its release, and the release decides what it leaves behind. -/
theorem step_iff : Step config inputs v op v' ↔
    ∃ w, IsFirst (op.ReleasedAt config inputs v) (op.waitStart config v) w ∧
      v' = op.finish config inputs v w := by
  constructor
  · exact isFirst_of_step
  · rintro ⟨w, hw, rfl⟩
    exact step_finish hw

theorem Operation.finish_cycle :
    (op.finish config inputs v w).cycle = if op.execState.isSome then w + 2 else w + 1 := by
  cases op with
  | jumpCond | jumpFproc =>
    simp only [Operation.finish, Visible.branch]
    split <;> rfl
  | _ => rfl

theorem Step.cycle_lt (h : Step config inputs v op v') : v.cycle < v'.cycle := by
  obtain ⟨w, hw, rfl⟩ := step_iff.mp h
  have hstart := Operation.lt_waitStart.trans_le hw.1
  rw [Operation.finish_cycle]
  split <;> omega

theorem Step.unique {v'' : Visible} (h : Step config inputs v op v')
    (h' : Step config inputs v op v'') : v' = v'' := by
  obtain ⟨w, hw, rfl⟩ := step_iff.mp h
  obtain ⟨w', hw', rfl⟩ := step_iff.mp h'
  rw [hw.unique hw']

end Sequencer
