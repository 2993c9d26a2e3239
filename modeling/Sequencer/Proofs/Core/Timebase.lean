import Mathlib
import Sequencer.Proofs.Core.Start

/-! The timebase over whole runs.

    The timebase counts cycles, and only an increment moves it. An increment is decoded, executes in
    the next cycle and retires there: the ALU samples the timebase in the decode cycle, and a load
    takes effect two cycles later. The load adds these two cycles, so that nothing of the pipeline
    shows in the count (`Start.timebase`). -/

namespace Sequencer

/-! ### The control lines of an increment -/

namespace Control

variable {s : State} {op : Operation} {inputs : TimingInputs} {config : Config}

theorem qclkLoad_iff : (of s op inputs config).qclkLoad = true ↔ s = .incQclkExec := by
  obtain ⟨fetchCycle, timeMatch, fprocReady, syncReady⟩ := inputs
  cases s with
  | fetchWait =>
    simp only [of]
    split <;> simp [fetch, goto]
  | decode =>
    cases op with
    | pulseWrite trigger => cases trigger <;> simp [of, decode, pulse, goto]
    | unknown =>
      obtain ⟨widths, latency, policy⟩ := config
      cases policy <;> simp [of, decode, goto]
    | _ => simp [of, decode, alu, goto]
  | aluFprocWait | jumpFprocWait =>
    cases op <;> cases fprocReady <;> simp [of, feedback, fprocWait, alu, goto]
  | _ => simp [of, goto]

/-- Only the decode of an increment leads to its execution. -/
theorem nextState_eq_incQclkExec :
    (of s op inputs config).nextState = .incQclkExec ↔
      s = .decode ∧ ∃ aluOp in0, op = .incQclk aluOp in0 := by
  obtain ⟨fetchCycle, timeMatch, fprocReady, syncReady⟩ := inputs
  cases s with
  | fetchWait =>
    simp only [of]
    split <;> simp [fetch, goto]
  | decode =>
    cases op with
    | pulseWrite trigger =>
      cases trigger <;> cases timeMatch <;> simp [of, decode, pulse, goto]
    | unknown =>
      obtain ⟨widths, latency, policy⟩ := config
      cases policy <;> simp [of, decode, goto]
    | _ => simp [of, decode, alu, goto]
  | aluFprocWait | jumpFprocWait =>
    cases op <;> cases fprocReady <;> simp [of, feedback, fprocWait, alu, goto]
  | syncWait => cases syncReady <;> simp [of, goto]
  | _ => simp [of, goto]

end Control

namespace Core

variable {c c' c₀ : Core} {i : Inputs} {config : Config} {inputs : Nat → Inputs} {t : Nat}

/-! ### One increment -/

/-- An increment retires in its execution, and nothing else executes there. -/
theorem Sound.retires_incQclk_iff (h : c.Sound) :
    (c.retires = true ∧ ∃ op in0, c.operation = .incQclk op in0) ↔ c.state = .incQclkExec := by
  constructor
  · rintro ⟨hretires, op, in0, hop⟩
    obtain ⟨hne, hnext⟩ := retires_iff.mp hretires
    have hdecode : c.state ≠ .decode := by
      intro hs
      rw [h.settled.control, hs, hop] at hnext
      exact nomatch hnext
    have hstage := h.stage
    rw [hop] at hstage
    rcases hstage with hs | hs | hs | hs
    · exact absurd hs hne
    · exact absurd hs hdecode
    · exact absurd hs hdecode
    · exact (Option.some.inj hs).symm
  · intro hs
    have hexec : ∃ op in0, c.operation = .incQclk op in0 := by
      have hstage := h.stage
      rw [hs] at hstage
      cases hop : c.operation with
      | incQclk op in0 => exact ⟨op, in0, rfl⟩
      | _ => simp [hop, Operation.Stage, Operation.waitState, Operation.execState] at hstage
    refine ⟨retires_iff.mpr ⟨by rw [hs]; decide, ?_⟩, hexec⟩
    rw [h.settled.control, hs]
    rfl

/-- The cycle before the execution of an increment decodes it. -/
theorem Tick.decodes_incQclk (h : Tick i c c') (hc : c.Sound) (hs : c'.state = .incQclkExec) :
    c.state = .decode ∧ ∃ op in0, c.operation = .incQclk op in0 := by
  rw [h.state, hc.settled.control] at hs
  exact Control.nextState_eq_incQclkExec.mp hs

theorem Tick.qclk_of_ne (h : Tick i c c') (hc : c.Sound) (hs : c.state ≠ .incQclkExec) :
    c'.qclk.value = c.qclk.value + 1 := by
  refine h.qclk_of_noLoad ?_
  rw [hc.settled.control, Bool.eq_false_iff, ne_eq, Control.qclkLoad_iff]
  exact hs

/-- The decode of an increment gives the ALU the operand first and the timebase second. -/
theorem Tick.aluOut_of_incQclk {op : AluOp} {in0 : Operand} (h : Tick i c c') (hc : c.Sound)
    (hs : c.state = .decode) (hop : c.operation = .incQclk op in0) :
    c'.state = .incQclkExec ∧
      c'.alu.out = some (op.apply (c.visible.operand in0) c.qclk.value) := by
  have hcontrol : c.control = Control.alu op in0 .qclk .incQclkExec := by
    rw [hc.settled.control, hs, hop]
    rfl
  have hfeeds : c.control.Feeds op in0 .qclk := by
    rw [hcontrol]
    exact ⟨rfl, rfl, rfl⟩
  exact ⟨h.state.trans (congrArg Control.nextState hcontrol), h.aluOut hc hfeeds (by rw [hop]; rfl)⟩

/-- The execution of an increment loads the result, and the two cycles since it was sampled. -/
theorem Tick.qclk_of_exec {x : UInt32} (h : Tick i c c') (hc : c.Sound)
    (hs : c.state = .incQclkExec) (hout : c.alu.out = some x) : c'.qclk.value = x + 2 := by
  have hload : c.control.qclkLoad = true := by
    rw [hc.settled.control, Control.qclkLoad_iff]
    exact hs
  rw [h.qclk, if_pos hload, hc.settled.aluOut, hout]
  rfl

/-- An increment that adds moves the timebase by what its operand was in the decode cycle. -/
theorem Tick.qclk_of_incQclk {j : Inputs} {d : Core} {in0 : Operand} (h : Tick i c c')
    (h' : Tick j c' d) (hc : c.Sound) (hs : c'.state = .incQclkExec)
    (hop : c.operation = .incQclk .add in0) :
    d.qclk.value = c'.qclk.value + 1 + c.visible.operand in0 := by
  obtain ⟨hdecode, -⟩ := h.decodes_incQclk hc hs
  obtain ⟨-, hout⟩ := h.aluOut_of_incQclk hc hdecode hop
  rw [h'.qclk_of_exec (h.sound hc) hs hout, h.qclk_of_ne hc (by rw [hdecode]; decide)]
  simp only [AluOp.apply]
  grind

/-! ### Whole runs -/

/-- The cycle in which the instruction of cycle `t` was decoded: the last decode until then. -/
def decodeCycle (c : Core) (inputs : Nat → Inputs) (t : Nat) : Nat :=
  Nat.findGreatest (c.Holds inputs fun d => d.state = .decode) t

/-- What an increment that retires in cycle `t` of the run adds to the timebase: the value of its
    operand in its decode cycle. Other cycles add nothing. -/
def increment (c : Core) (inputs : Nat → Inputs) (t : Nat) : Nat :=
  match c.run inputs t, c.run inputs (c.decodeCycle inputs t) with
  | .ok last, .ok decoded =>
    match last.retires, last.operation with
    | true, .incQclk _ in0 => (decoded.visible.operand in0).toNat
    | _, _ => 0
  | _, _ => 0

/-- Every increment that retires before cycle `t` adds its operand to the timebase. -/
def OnlyAdds (c : Core) (inputs : Nat → Inputs) (t : Nat) : Prop :=
  ∀ k < t, ∀ d op in0, c.run inputs k = .ok d → d.retires = true →
    d.operation = .incQclk op in0 → op = .add

theorem increment_of_ne (hrun : c₀.run inputs t = .ok c) (hc : c.Sound)
    (hs : c.state ≠ .incQclkExec) : c₀.increment inputs t = 0 := by
  unfold increment
  rw [hrun]
  split
  case h_1 last decoded hlast _ =>
    obtain rfl := Except.ok.inj hlast
    split
    case h_1 op in0 hretires hop =>
      exact absurd (hc.retires_incQclk_iff.mp ⟨hretires, op, in0, hop⟩) hs
    case h_2 => rfl
  case h_2 => rfl

/-- The increment of an execution cycle was decoded in the cycle before. -/
theorem increment_of_exec {op : AluOp} {in0 : Operand} (hrun : c₀.run inputs t = .ok c)
    (hrun' : c₀.run inputs (t + 1) = .ok c') (hs : c.state = .decode)
    (hs' : c'.state = .incQclkExec) (hretires : c'.retires = true)
    (hop : c'.operation = .incQclk op in0) :
    c₀.increment inputs (t + 1) = (c.visible.operand in0).toNat := by
  have hdecode : c₀.decodeCycle inputs (t + 1) = t := by
    have hnot : ¬ c₀.Holds inputs (fun d => d.state = .decode) (t + 1) := by
      rw [holds_iff hrun', hs']
      decide
    rw [decodeCycle, Nat.findGreatest_of_not hnot]
    exact Nat.findGreatest_eq ((holds_iff hrun).mpr hs)
  simp only [increment, hdecode, hrun, hrun', hretires, hop]

/-- One more cycle with an increment of `n`. -/
theorem ofNat_succ_add (t m n : Nat) :
    UInt32.ofNat (t + 1 + (m + n)) = UInt32.ofNat (t + m) + 1 + UInt32.ofNat n := by
  have hsum : t + 1 + (m + n) = t + m + 1 + n := by omega
  rw [hsum, UInt32.ofNat_add, UInt32.ofNat_add]
  rfl

/-- The timebase is the cycle and the increments that have retired. -/
theorem Start.timebase (h : Start config c₀) (hrun : c₀.run inputs t = .ok c)
    (hadd : c₀.OnlyAdds inputs t) :
    c.qclk.value = UInt32.ofNat (t + ∑ k ∈ Finset.range t, c₀.increment inputs k) := by
  induction t generalizing c with
  | zero =>
    obtain rfl := Except.ok.inj hrun
    obtain ⟨-, -, -, hreset⟩ := h.spec
    exact hreset.qclk
  | succ t ih =>
    obtain ⟨d, hd, -⟩ := run_succ_eq_ok.mp hrun
    have htick := tick_of_run_succ hd hrun
    have hsound := (h.reached.run hd).sound
    have hqclk := ih hd fun k hk => hadd k (by omega)
    rw [Finset.sum_range_succ]
    by_cases hs : d.state = .incQclkExec
    · obtain ⟨hretires, op, in0, hop⟩ := hsound.retires_incQclk_iff.mpr hs
      obtain rfl := hadd t (by omega) d op in0 hd hretires hop
      -- an execution is not the first cycle of a run, so there is a decode before it
      cases t with
      | zero =>
        obtain rfl := Except.ok.inj hd
        obtain ⟨-, hstart, -⟩ := h.spec
        exact nomatch hs.symm.trans hstart.state
      | succ t =>
        obtain ⟨e, he, -⟩ := run_succ_eq_ok.mp hd
        have htick' := tick_of_run_succ he hd
        have hsound' := (h.reached.run he).sound
        obtain ⟨hdecode, -⟩ := htick'.decodes_incQclk hsound' hs
        have hop' := htick'.operation_of_ne hsound' (by rw [hdecode]; decide)
        rw [htick'.qclk_of_incQclk htick hsound' hs (hop'.symm.trans hop), hqclk,
          increment_of_exec he hd hdecode hs hretires hop, ofNat_succ_add, UInt32.ofNat_toNat]
    · rw [htick.qclk_of_ne hsound hs, hqclk, increment_of_ne hd hsound hs, ofNat_succ_add]
      exact (UInt32.add_zero _).symm

end Core

end Sequencer
