import Mathlib
import Sequencer.Proofs.Core.Start

/-! The pulse outputs over whole runs.

    One tick determines the outputs of the next cycle (`NextOutputs`): the strobe follows a pulse
    that is triggered, the phase reset follows its instruction, and a parameter changes only when a
    commit writes it. Over a run this means that parameters stay within their widths, that every
    triggered pulse gives one strobe, and that active cycles are a fetch and a decode apart
    (`pulse_outputs_of_run`). -/

namespace Sequencer

/-- The strobe or the phase reset is high. -/
def PulseOutputs.Active (o : PulseOutputs) : Prop := o.cstrobe = true ∨ o.phaseReset = true

/-- Is this a pulse that waits for its command time? -/
def Operation.triggers : Operation → Bool
  | pulseWrite trigger _ _ _ => trigger
  | _ => false

theorem Operation.triggers_iff {op : Operation} :
    op.triggers = true ↔ ∃ cmdTime reg fields, op = .pulseWrite true cmdTime reg fields := by
  cases op <;> simp [triggers]

/-! ### The control lines of a pulse -/

namespace Control

variable {s : State} {op : Operation} {inputs : TimingInputs} {config : Config}

/-- Outside of decode the pulse lines are off. -/
theorem decode_of_pulse (h : (of s op inputs config).strobeEn = true ∨
    (of s op inputs config).pulseReset = true ∨ (of s op inputs config).pulseWrite = true) :
    s = .decode := by
  obtain ⟨fetchCycle, timeMatch, fprocReady, syncReady⟩ := inputs
  cases s with
  | decode => rfl
  | fetchWait =>
    simp only [of] at h
    split at h <;> simp [fetch, goto] at h
  | aluFprocWait | jumpFprocWait =>
    cases op <;> cases fprocReady <;> simp [of, feedback, fprocWait, alu, goto] at h
  | _ => simp [of, goto] at h

theorem strobeEn_decode : (of .decode op inputs config).strobeEn = op.triggers := by
  cases op with
  | pulseWrite trigger => cases trigger <;> rfl
  | unknown => cases h : config.unknownOpcode <;> simp [of, decode, goto, h, Operation.triggers]
  | _ => rfl

theorem pulseReset_decode :
    (of .decode op inputs config).pulseReset = true ↔ op = .pulseReset := by
  cases op with
  | pulseWrite trigger => cases trigger <;> simp [of, decode, pulse, goto]
  | unknown => cases h : config.unknownOpcode <;> simp [of, decode, goto, h]
  | _ => simp [of, decode, alu, goto]

theorem pulseWrite_decode : (of .decode op inputs config).pulseWrite = true ↔
    ∃ trigger cmdTime reg fields, op = .pulseWrite trigger cmdTime reg fields ∧
      (trigger = true → inputs.timeMatch = true) := by
  cases op with
  | pulseWrite trigger => cases trigger <;> simp [of, decode, pulse, goto]
  | unknown => cases h : config.unknownOpcode <;> simp [of, decode, goto, h]
  | _ => simp [of, decode, alu, goto]

end Control

namespace Core

variable {c c' c₀ : Core} {i : Inputs} {config : Config} {inputs : Nat → Inputs} {t n : Nat}
  {p : Parameter} {x : UInt32}

/-! ### The outputs after one tick -/

/-- The core decodes a triggered pulse, in the cycle of its command time. -/
def Fires (c : Core) : Prop :=
  c.state = .decode ∧ ∃ reg fields, c.operation = .pulseWrite true c.qclk.value reg fields

/-- The core decodes a phase reset. -/
def ResetsPhase (c : Core) : Prop := c.state = .decode ∧ c.operation = .pulseReset

/-- The core decodes a pulse that is not triggered or whose command time is now, and writes `x` to
    parameter `p`. -/
def Commits (c : Core) (p : Parameter) (x : UInt32) : Prop :=
  c.state = .decode ∧ ∃ trigger cmdTime reg fields,
    c.operation = .pulseWrite trigger cmdTime reg fields ∧
    (trigger = true → c.qclk.value = cmdTime) ∧ (fields.get p).writeEn = true ∧
    x = if (fields.get p).regSel then c.visible.reg reg else (fields.get p).value

/-- The outputs in the cycle after that of `c`. -/
structure NextOutputs (config : Config) (c : Core) (o : PulseOutputs) : Prop where
  cstrobe : o.cstrobe = true ↔ c.Fires
  phaseReset : o.phaseReset = true ↔ c.ResetsPhase
  keeps : ∀ p, (∀ x, ¬ c.Commits p x) → o.data.get p = c.pulse.out.data.get p
  stores : ∀ p x, c.Commits p x → (o.data.get p).toNat = x.toNat % 2 ^ config.widths.pulse.get p

theorem timeMatch_iff {trigger : Bool} {cmdTime : UInt32} {reg : UInt8}
    {fields : Bundle PulseField} (h : c.operation = .pulseWrite trigger cmdTime reg fields) :
    c.timing.timeMatch = true ↔ c.qclk.value = cmdTime := by
  simp [timing, h, cmdTimeOf]

theorem Settled.cstrobe_iff (h : c.Settled) : c.lines.cstrobe = true ↔ c.Fires := by
  rw [h.cstrobe, Bool.and_eq_true, h.control]
  constructor
  · rintro ⟨hen, hmatch⟩
    have hs := Control.decode_of_pulse (.inl hen)
    rw [hs, Control.strobeEn_decode, Operation.triggers_iff] at hen
    obtain ⟨cmdTime, reg, fields, hop⟩ := hen
    exact ⟨hs, reg, fields, ((timeMatch_iff hop).mp hmatch).symm ▸ hop⟩
  · rintro ⟨hs, reg, fields, hop⟩
    rw [hs, Control.strobeEn_decode]
    exact ⟨Operation.triggers_iff.mpr ⟨_, reg, fields, hop⟩, (timeMatch_iff hop).mpr rfl⟩

theorem Settled.phaseReset_iff (h : c.Settled) : c.lines.phaseReset = true ↔ c.ResetsPhase := by
  rw [h.phaseReset, h.control]
  constructor
  · intro hen
    have hs := Control.decode_of_pulse (.inr (.inl hen))
    rw [hs, Control.pulseReset_decode] at hen
    exact ⟨hs, hen⟩
  · rintro ⟨hs, hop⟩
    rw [hs, Control.pulseReset_decode]
    exact hop

/-- What is presented to a parameter is what the cycle commits to it. -/
theorem Sound.pulseWrites_iff (h : c.Sound) :
    c.lines.pulseWrites.get p = some x ↔ c.Commits p x := by
  rw [h.settled.pulseWrites, Bundle.get_map]
  have hdata0 {trigger : Bool} {cmdTime : UInt32} {reg : UInt8} {fields : Bundle PulseField}
      (hop : c.operation = .pulseWrite trigger cmdTime reg fields) :
      c.lines.data0 = c.visible.reg reg := by
    have hread := h.settled.data0
    have hfits := h.formed.fits h.settled
    rw [hop] at hread hfits
    exact (Except.ok.inj ((h.formed.read hfits.1).symm.trans hread)).symm
  constructor
  · intro hx
    rw [selectPulse, Option.ite_none_right_eq_some, Bool.and_eq_true, h.settled.control] at hx
    obtain ⟨⟨hen, hwrite⟩, hx⟩ := hx
    have hs := Control.decode_of_pulse (.inr (.inr hen))
    rw [hs, Control.pulseWrite_decode] at hen
    obtain ⟨trigger, cmdTime, reg, fields, hop, hmatch⟩ := hen
    rw [hdata0 hop, hop, Option.some.injEq] at hx
    rw [hop] at hwrite
    exact ⟨hs, trigger, cmdTime, reg, fields, hop, fun ht => (timeMatch_iff hop).mp (hmatch ht),
      hwrite, hx.symm⟩
  · rintro ⟨hs, trigger, cmdTime, reg, fields, hop, hmatch, hwrite, rfl⟩
    have hen : c.control.pulseWrite = true := by
      rw [h.settled.control, hs, Control.pulseWrite_decode]
      exact ⟨trigger, cmdTime, reg, fields, hop, fun ht => (timeMatch_iff hop).mpr (hmatch ht)⟩
    rw [selectPulse, hen, hdata0 hop, hop]
    exact if_pos hwrite

theorem Tick.nextOutputs (h : Tick i c c') (hc : c.Sound)
    (hw : c.pulse.widths = config.widths.pulse) : NextOutputs config c c'.pulse.out := by
  obtain ⟨-, hstrobe, hreset, hstore⟩ := PulseRegisters.latch_eq_ok h.pulse
  rw [hw] at hstore
  refine ⟨?_, ?_, fun p hnone => ?_, fun p x hx => ?_⟩
  · rw [hstrobe]
    exact hc.settled.cstrobe_iff
  · rw [hreset]
    exact hc.settled.phaseReset_iff
  · have hp := hstore p
    cases hwrite : c.lines.pulseWrites.get p with
    | none =>
      rw [hwrite] at hp
      exact PulseRegisters.store_none.mp hp
    | some x => exact absurd (hc.pulseWrites_iff.mp hwrite) (hnone x)
  · have hp := hstore p
    rw [hc.pulseWrites_iff.mpr hx] at hp
    exact PulseRegisters.toNat_store hp

/-! ### When pulses retire -/

theorem Settled.nextState_of_active (h : c.Settled) (ha : c.Fires ∨ c.ResetsPhase) :
    c.control.nextState = .fetchWait := by
  rw [h.control]
  rcases ha with ⟨hs, reg, fields, hop⟩ | ⟨hs, hop⟩
  · have hmatch := (timeMatch_iff hop).mpr rfl
    rw [hs, hop]
    simp [Control.of, Control.decode, Control.pulse, Control.goto, hmatch]
  · rw [hs, hop]
    rfl

/-- A triggered pulse retires in the cycle in which it fires. -/
theorem Sound.retires_trigger_iff (h : c.Sound) :
    c.retires = true ∧ c.operation.triggers = true ↔ c.Fires := by
  constructor
  · rintro ⟨hretires, htrigger⟩
    obtain ⟨cmdTime, reg, fields, hop⟩ := Operation.triggers_iff.mp htrigger
    obtain ⟨hne, hnext⟩ := retires_iff.mp hretires
    have hs : c.state = .decode := by
      have hstage := h.stage
      rw [hop] at hstage
      simpa [Operation.Stage, Operation.waitState, Operation.execState, hne] using hstage
    rw [h.settled.control, hs, hop] at hnext
    have hmatch : c.timing.timeMatch = true := by
      by_contra hno
      simp [Control.of, Control.decode, Control.pulse, Control.goto, hno] at hnext
    exact ⟨hs, reg, fields, ((timeMatch_iff hop).mp hmatch).symm ▸ hop⟩
  · intro hf
    have hnext := h.settled.nextState_of_active (.inl hf)
    obtain ⟨hs, reg, fields, hop⟩ := hf
    exact ⟨retires_iff.mpr ⟨by rw [hs]; decide, hnext⟩,
      Operation.triggers_iff.mpr ⟨_, reg, fields, hop⟩⟩

/-! ### Whole runs -/

/-- The parameters are within the widths of the configuration, and the strobe and the phase reset
    are not high together. -/
structure WellDriven (config : Config) (c : Core) : Prop where
  widths : c.pulse.widths = config.widths.pulse
  data_lt : ∀ p, (c.pulse.out.data.get p).toNat < 2 ^ config.widths.pulse.get p
  exclusive : ¬ (c.pulse.out.cstrobe = true ∧ c.pulse.out.phaseReset = true)

theorem Tick.wellDriven (h : Tick i c c') (hc : c.Sound) (hw : c.WellDriven config) :
    c'.WellDriven config := by
  have hout := h.nextOutputs hc hw.widths
  refine ⟨(PulseRegisters.latch_eq_ok h.pulse).1.trans hw.widths, fun p => ?_, ?_⟩
  · by_cases hx : ∃ x, c.Commits p x
    · obtain ⟨x, hx⟩ := hx
      rw [hout.stores p x hx]
      exact Nat.mod_lt _ (by positivity)
    · rw [hout.keeps p (not_exists.mp hx)]
      exact hw.data_lt p
  · rw [hout.cstrobe, hout.phaseReset]
    rintro ⟨⟨-, reg, fields, hop⟩, -, hop'⟩
    exact nomatch hop.symm.trans hop'

theorem Start.wellDriven (h : Start config c₀) (hrun : c₀.run inputs t = .ok c) :
    c.WellDriven config := by
  induction t generalizing c with
  | zero =>
    obtain rfl := Except.ok.inj hrun
    obtain ⟨-, -, -, hreset⟩ := h.spec
    refine ⟨by rw [hreset.pulse], fun p => ?_, by simp [hreset.pulse]⟩
    rw [hreset.pulse, Bundle.get_fill]
    exact Nat.pos_of_ne_zero (by positivity)
  | succ t ih =>
    obtain ⟨d, hd, -⟩ := run_succ_eq_ok.mp hrun
    exact (tick_of_run_succ hd hrun).wellDriven (h.reached.run hd).sound (ih hd)

theorem Start.nextOutputs (h : Start config c₀) (hrun : c₀.run inputs t = .ok c)
    (hrun' : c₀.run inputs (t + 1) = .ok c') : NextOutputs config c c'.pulse.out :=
  (tick_of_run_succ hrun hrun').nextOutputs (h.reached.run hrun).sound (h.wellDriven hrun).widths

/-- The outputs of the first cycle are low. -/
theorem Start.not_active (h : Start config c₀) : ¬ c₀.pulse.out.Active := by
  obtain ⟨-, -, -, hreset⟩ := h.spec
  simp [PulseOutputs.Active, hreset.pulse]

/-- Up to cycle `n` there are as many strobes as triggered pulses have retired. -/
theorem Start.count_cstrobe (h : Start config c₀) (hrun : c₀.run inputs n = .ok c) :
    Nat.count (c₀.Holds inputs fun c => c.pulse.out.cstrobe = true) (n + 1) =
      Nat.count (c₀.Holds inputs fun c => c.retires = true ∧ c.operation.triggers = true) n := by
  induction n generalizing c with
  | zero =>
    have hlow : ¬ c₀.Holds inputs (fun c => c.pulse.out.cstrobe = true) 0 := by
      rw [holds_iff rfl]
      exact fun hhigh => h.not_active (.inl hhigh)
    rw [Nat.count_succ, if_neg hlow, Nat.count_zero, Nat.count_zero]
  | succ n ih =>
    obtain ⟨d, hd, -⟩ := run_succ_eq_ok.mp hrun
    have hiff : c₀.Holds inputs (fun c => c.pulse.out.cstrobe = true) (n + 1) ↔
        c₀.Holds inputs (fun c => c.retires = true ∧ c.operation.triggers = true) n := by
      rw [holds_iff hrun, holds_iff hd, (h.nextOutputs hd hrun).cstrobe,
        (h.reached.run hd).sound.retires_trigger_iff]
    rw [Nat.count_succ, ih hd, Nat.count_succ]
    simp only [hiff]

/-- An active cycle is the first of a fetch, and the one before it was a decode. -/
theorem Start.active (h : Start config c₀) (hrun : c₀.run inputs t = .ok c)
    (ha : c.pulse.out.Active) :
    c.Boundary ∧ ∃ s d, t = s + 1 ∧ c₀.run inputs s = .ok d ∧ d.state = .decode := by
  cases t with
  | zero =>
    obtain rfl := Except.ok.inj hrun
    exact absurd ha h.not_active
  | succ s =>
    obtain ⟨d, hd, -⟩ := run_succ_eq_ok.mp hrun
    have htick := tick_of_run_succ hd hrun
    have hsound := (h.reached.run hd).sound
    have hout := h.nextOutputs hd hrun
    have hactive : d.Fires ∨ d.ResetsPhase := ha.imp hout.cstrobe.mp hout.phaseReset.mp
    have hs : d.state = .decode := hactive.elim And.left And.left
    have hnext : c.state = .fetchWait :=
      htick.state.trans (hsound.settled.nextState_of_active hactive)
    exact ⟨htick.boundary hsound (by rw [hs]; decide) hnext, s, d, rfl, hd, hs⟩

/-- Active cycles are a fetch and a decode apart. -/
theorem Start.active_apart (h : Start config c₀) {t' : Nat} (htt : t < t')
    (hrun : c₀.run inputs t = .ok c) (hrun' : c₀.run inputs t' = .ok c')
    (ha : c.pulse.out.Active) (ha' : c'.pulse.out.Active) :
    t + config.memReadLatency.toNat + 2 ≤ t' := by
  obtain ⟨hb, -⟩ := h.active hrun ha
  obtain ⟨-, s, d, rfl, hd, hs⟩ := h.active hrun' ha'
  have hle := h.reached.decode_after hrun hb (Nat.le_of_lt_succ htt) hd (by rw [hs]; decide)
  omega

/-- The outputs of every cycle of a run follow from the cycle before: the strobe is high after a
    cycle in which a triggered pulse is decoded at its command time, the phase reset after one in
    which a phase reset is decoded, and a parameter holds what was last committed to it, cut to its
    width. So parameters are always within their widths, every triggered pulse that retires gives
    one strobe, strobe and phase reset exclude each other, and active cycles are at least the read
    latency and two more cycles apart. -/
theorem pulse_outputs_of_run (h : Start config c₀) (inputs : Nat → Inputs) :
    (∀ t < 2 ^ 64, ∃ c, c₀.run inputs t = .ok c) ∧
    (∀ t c c', c₀.run inputs t = .ok c → c₀.run inputs (t + 1) = .ok c' →
      NextOutputs config c c'.pulse.out) ∧
    (∀ t c, c₀.run inputs t = .ok c →
      (∀ p, (c.pulse.out.data.get p).toNat < 2 ^ config.widths.pulse.get p) ∧
      ¬ (c.pulse.out.cstrobe = true ∧ c.pulse.out.phaseReset = true) ∧
      Nat.count (c₀.Holds inputs fun c => c.pulse.out.cstrobe = true) (t + 1) =
        Nat.count (c₀.Holds inputs fun c => c.retires = true ∧ c.operation.triggers = true) t) ∧
    ∀ t t' c c', t < t' → c₀.run inputs t = .ok c → c₀.run inputs t' = .ok c' →
      c.pulse.out.Active → c'.pulse.out.Active → t + config.memReadLatency.toNat + 2 ≤ t' := by
  refine ⟨h.reached.exists_run inputs, fun t c c' hrun hrun' => h.nextOutputs hrun hrun',
    fun t c hrun => ?_, fun t t' c c' htt hrun hrun' ha ha' => h.active_apart htt hrun hrun' ha ha'⟩
  have hdriven := h.wellDriven hrun
  exact ⟨hdriven.data_lt, hdriven.exclusive, h.count_cstrobe hrun⟩

/-- A pulse that is decoded in cycle 6 and triggered in cycle 7 writes register 1, which holds 53,
    to an amplitude of four bits. The phase reset after it is active as soon as it can be. -/
theorem pulse_outputs_of_stalled_trigger :
    ∃ c₀ c₇ c₈ c₁₁, Start .narrow c₀ ∧
      c₀.run (fun _ => {}) 7 = .ok c₇ ∧ c₀.run (fun _ => {}) 8 = .ok c₈ ∧
      c₀.run (fun _ => {}) 11 = .ok c₁₁ ∧
      NextOutputs .narrow c₇ c₈.pulse.out ∧
      c₇.Commits .amp 53 ∧ c₈.pulse.out = ⟨⟨0, 0, 0, 5, 0⟩, true, false⟩ ∧
      c₁₁.pulse.out = ⟨⟨0, 0, 0, 5, 0⟩, false, true⟩ := by
  have hrun : ∃ fresh c₀ c₇ c₈ c₁₁, Core.new .narrow = pure fresh ∧
      fresh.loadProgram [Narrow.setFiftyThree, Narrow.pulseAtSeven, Narrow.pulseReset] =
        .ok (c₀, .ok ()) ∧
      c₀.run (fun _ => {}) 7 = .ok c₇ ∧ c₀.run (fun _ => {}) 8 = .ok c₈ ∧
      c₀.run (fun _ => {}) 11 = .ok c₁₁ ∧ c₇.Commits .amp 53 ∧
      c₈.pulse.out = ⟨⟨0, 0, 0, 5, 0⟩, true, false⟩ ∧
      c₁₁.pulse.out = ⟨⟨0, 0, 0, 5, 0⟩, false, true⟩ :=
    ⟨_, _, _, _, _, rfl, rfl, rfl, rfl, rfl,
      ⟨rfl, true, 7, 1, _, rfl, fun _ => rfl, rfl, rfl⟩, rfl, rfl⟩
  obtain ⟨fresh, c₀, c₇, c₈, c₁₁, hnew, hload, h₇, h₈, h₁₁, hrest⟩ := hrun
  have hs : Start _ c₀ := .load (.new hnew) hload
  exact ⟨c₀, c₇, c₈, c₁₁, hs, h₇, h₈, h₁₁, (pulse_outputs_of_run hs _).2.1 7 c₇ c₈ h₇ h₈, hrest⟩

end Core

end Sequencer
