import Mathlib
import Sequencer.Proofs.Core.Alu
import Sequencer.Proofs.Core.Stall
import Sequencer.Proofs.Core.Timebase

/-! What an increment does to the timebase.

    An increment is written `qclk op in0`. The ALU has the timebase on its second input, so what is
    loaded is `in0 op qclk`. Two clocks take the instruction from decode to its end: the first
    captures the operands (`Executes`), the second loads the result with the two cycles that have
    passed (`Incremented`). What is loaded is what is written exactly if the operands may be
    exchanged. -/

namespace Sequencer.Core

variable {c d e f : Core} {config : Config} {i : Inputs} {op : AluOp} {in0 : Operand} {x : UInt32}

/-- `e` executes the increment that `c` has decoded, with `x` as the ALU result. -/
structure Executes (c : Core) (x : UInt32) (e : Core) : Prop where
  state : e.state = .incQclkExec
  out : e.alu.out = some x
  pc : e.pc = c.pc
  regs : e.regs = c.regs
  retired : e.retired = c.retired

/-- `d` has retired the increment that `c` has decoded, with `x` as the ALU result. -/
structure Incremented (c : Core) (x : UInt32) (d : Core) : Prop where
  state : d.state = .fetchWait
  qclk : d.qclk.value = x + 2
  pc : d.pc = c.pc
  regs : d.regs = c.regs
  retired : d.retired = c.retired + 1

/-! ### One clock -/

theorem operand_congr (h : d.regs = c.regs) : d.visible.operand in0 = c.visible.operand in0 := by
  cases in0 with
  | imm x => rfl
  | reg r => simp only [visible, Visible.operand, Visible.reg, h]

theorem Tick.executes (h : Tick i d e) (hd : d.Sound) (hf : Frozen c 0 d)
    (hop : c.operation = .incQclk op in0) :
    Executes c (op.apply (c.visible.operand in0) c.qclk.value) e := by
  have hop' : d.operation = .incQclk op in0 := hf.operation.trans hop
  have hquiet : d.control.Quiet := by
    rw [hd.settled.control, hf.state, hop']
    exact Control.quiet_waitState (.incQclk op in0) _ _ (by rintro addr ⟨⟩)
  obtain ⟨hstate, hout⟩ := h.aluOut_of_incQclk hd hf.state hop'
  refine ⟨hstate, ?_, ?_, ?_, ?_⟩
  · rw [hout, operand_congr hf.regs, hf.qclk]
    exact congrArg (fun q => some (op.apply _ q)) (UInt32.add_zero _)
  · rw [h.pc_of_noLoad hquiet.pcInc (hd.settled.pcLoad_eq_none hquiet.pcLoad hquiet.pcLoadCond)]
    exact hf.pc
  · rw [h.regs_of_noWrite hquiet.regWrite]
    exact hf.regs
  · rw [h.retired_of_ne (.inr (by rw [hstate]; decide))]
    exact hf.retired

theorem Tick.incremented (h : Tick i d e) (hd : d.Sound) (hx : Executes c x d) :
    Incremented c x e := by
  have hcontrol : d.control = { Control.goto .fetchWait with qclkLoad := true } := by
    rw [hd.settled.control, hx.state]
    rfl
  have hload : d.lines.pcLoad = none :=
    hd.settled.pcLoad_eq_none (by rw [hcontrol]; rfl) (by rw [hcontrol]; rfl)
  have hstate : e.state = .fetchWait := h.state.trans (congrArg Control.nextState hcontrol)
  refine ⟨hstate, h.qclk_of_exec hd hx.state hx.out, ?_, ?_, ?_⟩
  · rw [h.pc_of_noLoad (by rw [hcontrol]; rfl) hload]
    exact hx.pc
  · rw [h.regs_of_noWrite (by rw [hcontrol]; rfl)]
    exact hx.regs
  · rw [h.retired_of_boundary (by rw [hx.state]; decide) hstate, hx.retired]

/-! ### Both clocks, with edits around them -/

theorem Reachable.executes (h : Reachable config c) (hsettled : c.HasSettled)
    (hs : c.state = .decode) (hop : c.operation = .incQclk op in0) (hc : Continues c 1 e) :
    Executes c (op.apply (c.visible.operand in0) c.qclk.value) e := by
  obtain ⟨d, f, hd, hclock, hf⟩ := hc.exists_last
  have hfrozen : Frozen c 0 d :=
    h.frozen hsettled hs (fun n hn => absurd hn n.not_lt_zero) hd le_rfl
  obtain ⟨g, i, hg, rfl⟩ := (hd.runnable (h.runnable hsettled (by rw [hs]; decide))).1
  have hexec := (tick_of_clock hclock).executes hg hfrozen.of_drive hop
  obtain ⟨words, j, rfl⟩ := hf.eq_drive
  exact { hexec with }

theorem Reachable.incremented (h : Reachable config c) (hsettled : c.HasSettled)
    (hs : c.state = .decode) (hop : c.operation = .incQclk op in0) (hc : Continues c 2 d) :
    Incremented c (op.apply (c.visible.operand in0) c.qclk.value) d := by
  obtain ⟨e, f, he, hclock, hf⟩ := hc.exists_last
  have hexec := h.executes hsettled hs hop he
  obtain ⟨g, i, hg, rfl⟩ := (he.runnable (h.runnable hsettled (by rw [hs]; decide))).1
  have hinc := (tick_of_clock hclock).incremented hg { hexec with }
  obtain ⟨words, j, rfl⟩ := hf.eq_drive
  exact { hinc with }

/-- An increment takes its operand first. Two clocks after a core has settled in decode of
    `incQclk op in0` the instruction has retired, whatever happened to the input lines and to
    program memory, and the timebase is `op` of the operand and of what the timebase was, in this
    order, and two more. So the timebase is what `qclk op in0` says exactly if `op` adds, tests for
    equality or gives zero, or the two words are equal, or `op` subtracts and they are half the
    range apart. On any inputs there are two more clocks, unless the cycle count is exhausted. -/
theorem increment_takes_operand_first (h : Reachable config c) (hsettled : c.HasSettled)
    (hs : c.state = .decode) (hop : c.operation = .incQclk op in0) :
    (∀ d, Continues c 2 d →
      Incremented c (op.apply (c.visible.operand in0) c.qclk.value) d ∧
      (d.qclk.value = op.apply c.qclk.value (c.visible.operand in0) + 2 ↔
        op = .add ∨ op = .eq ∨ op = .zero ∨ c.visible.operand in0 = c.qclk.value ∨
          op = .sub ∧ c.visible.operand in0 = c.qclk.value + 0x80000000)) ∧
    (c.cycle + 2 < 2 ^ 64 → ∀ inputs, ∃ d, c.run inputs 2 = .ok d) := by
  refine ⟨fun d hc => ?_, fun hlt inputs => ?_⟩
  · have hinc := h.incremented hsettled hs hop hc
    refine ⟨hinc, ?_⟩
    rw [hinc.qclk, UInt32.add_left_inj]
    exact AluOp.apply_comm_iff _ _ op
  · exact (h.runnable hsettled (by rw [hs]; decide)).exists_run inputs 2 hlt

/-- With 9 in register 1, `qclk sub r1` at time 6 takes the timebase to 9 - 6 + 2. -/
theorem increment_takes_operand_first_register :
    ∃ c d, Reachable .narrow c ∧ c.state = .decode ∧
      c.operation = .incQclk .sub (.reg 1) ∧ c.visible.operand (.reg 1) = 9 ∧ c.qclk.value = 6 ∧
      c.run (fun _ => {}) 2 = .ok d ∧ Incremented c 3 d ∧
      d.qclk.value ≠ AluOp.sub.apply c.qclk.value (c.visible.operand (.reg 1)) + 2 := by
  have hrun : ∃ fresh c₀ c, Core.new .narrow = pure fresh ∧
      fresh.loadProgram [Narrow.addNine, Narrow.incSubReg] = .ok (c₀, .ok ()) ∧
      c₀.run (fun _ => {}) 6 = .ok c ∧ c.state = .decode ∧
      c.operation = .incQclk .sub (.reg 1) ∧ c.visible.operand (.reg 1) = 9 ∧ c.qclk.value = 6 ∧
      c.cycle = 6 :=
    ⟨_, _, _, rfl, rfl, rfl, rfl, rfl, rfl, rfl, rfl⟩
  obtain ⟨fresh, c₀, c, hnew, hload, hrun, hs, hop, hv, hq, hcycle⟩ := hrun
  have hstart : Start _ c₀ := .load (.new hnew) hload
  have hreach : Reachable _ c := ((Reachable.new hnew).load hload).run hrun
  have hsettled := (Continues.of_run hrun).hasSettled hstart.hasSettled
  obtain ⟨hinc, hexists⟩ := increment_takes_operand_first hreach hsettled hs hop
  obtain ⟨d, hd⟩ := hexists (by rw [hcycle]; decide) fun _ => {}
  obtain ⟨hd', hiff⟩ := hinc d (.of_run hd)
  rw [hv, hq] at hd' hiff
  refine ⟨c, d, hreach, hs, hop, hv, hq, hd, hd', ?_⟩
  rw [hv, hq, ne_eq, hiff]
  decide

/-- An increment does not give what its text says: `qclk sub 5` at time 2 takes the timebase to
    5 and not to 2 - 5 + 2. -/
theorem increment_not_as_written :
    ¬ ∀ config c d op in0, Reachable config c → c.HasSettled → c.state = .decode →
      c.operation = .incQclk op in0 → Continues c 2 d →
      d.qclk.value = op.apply c.qclk.value (c.visible.operand in0) + 2 := by
  intro h
  have hrun : ∃ fresh c₀ c d, Core.new .narrow = pure fresh ∧
      fresh.loadProgram [Narrow.incSubImm] = .ok (c₀, .ok ()) ∧
      c₀.run (fun _ => {}) 2 = .ok c ∧ c.state = .decode ∧ c.operation = .incQclk .sub (.imm 5) ∧
      c.qclk.value = 2 ∧ c.run (fun _ => {}) 2 = .ok d ∧ d.qclk.value = 5 :=
    ⟨_, _, _, _, rfl, rfl, rfl, rfl, rfl, rfl, rfl, rfl⟩
  obtain ⟨fresh, c₀, c, d, hnew, hload, hrun, hs, hop, hq, hd, hd'⟩ := hrun
  have hstart : Start _ c₀ := .load (.new hnew) hload
  have hreach : Reachable _ c := ((Reachable.new hnew).load hload).run hrun
  have hsettled := (Continues.of_run hrun).hasSettled hstart.hasSettled
  have heq := h _ c d .sub (.imm 5) hreach hsettled hs hop (.of_run hd)
  rw [hd', hq] at heq
  exact absurd heq (show (5 : UInt32) ≠ AluOp.sub.apply 2 5 + 2 by decide)

end Sequencer.Core
