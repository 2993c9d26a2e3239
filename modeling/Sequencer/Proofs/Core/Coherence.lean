import Mathlib
import Sequencer.Proofs.Core.Restart
import Sequencer.Proofs.Core.Timebase

/-! The control state and the instruction register stay together.

    An edge samples control lines that settled before it, perhaps several edges before. So it is not
    enough that the state fits the operation: the lines must already promise a state that fits the
    instruction register after the edge, and operands that give the ALU a result wherever the next
    state uses one. `Coherent` says all of this, and every use of a core keeps it, edges without
    settling and program writes in the middle of an instruction included (`Reachable.coherent`). -/

namespace Sequencer

/-! ### States and the operations they are for -/

namespace State

/-- Can a core hold the operation in this state? -/
def admits : State → Operation → Bool
  | .fetchWait, _ | .decode, _ => true
  | .aluExec, .regAlu _ _ _ _ | .aluExec, .aluFproc _ _ _ _ => true
  | .incQclkExec, .incQclk _ _ => true
  | .jumpCondExec, .jumpCond _ _ _ _ | .jumpCondExec, .jumpFproc _ _ _ _ => true
  | .aluFprocWait, .aluFproc _ _ _ _ => true
  | .jumpFprocWait, .jumpFproc _ _ _ _ => true
  | .syncWait, .sync _ => true
  | _, _ => false

/-- Is the ALU result used in this state? -/
def executes : State → Bool
  | .aluExec | .incQclkExec | .jumpCondExec => true
  | _ => false

end State

theorem Operation.Stage.admits {op : Operation} {s : State} (h : op.Stage s) :
    s.admits op = true := by
  rcases h with rfl | rfl | rfl | h
  · rfl
  · rfl
  · cases op <;> rfl
  · cases op <;> simp only [execState, Option.some.injEq, reduceCtorEq] at h <;> subst h <;> rfl

namespace Control

variable {s : State} {op : Operation} {inputs : TimingInputs} {config : Config}

/-- A state that uses the ALU result is entered with the ALU fed. -/
theorem feeds_of_executes (h : (of s op inputs config).nextState.executes = true) :
    ∃ f in0 in1, (of s op inputs config).Feeds f in0 in1 := by
  obtain ⟨fetchCycle, timeMatch, fprocReady, syncReady⟩ := inputs
  cases s with
  | fetchWait =>
    rw [nextState_fetchWait] at h
    split at h <;> cases h
  | decode =>
    cases op with
    | regAlu f in0 | jumpCond f in0 => exact ⟨f, in0, .reg, rfl, rfl, rfl⟩
    | incQclk f in0 => exact ⟨f, in0, .qclk, rfl, rfl, rfl⟩
    | pulseWrite trigger => cases trigger <;> cases timeMatch <;> cases h
    | unknown =>
      obtain ⟨widths, latency, policy⟩ := config
      cases policy <;> cases h
    | _ => cases h
  | aluFprocWait | jumpFprocWait =>
    cases op with
    | aluFproc f in0 | jumpFproc f in0 =>
      cases fprocReady with
      | false => cases h
      | true => exact ⟨f, in0, .fproc, rfl, rfl, rfl⟩
    | _ => cases h
  | syncWait => cases syncReady <;> cases h
  | _ => cases h

/-- Registers are written and branches are taken in the execution states for it only. -/
theorem regWrite_pcLoadCond : (of s op inputs config).regWrite = decide (s = .aluExec) ∧
    (of s op inputs config).pcLoadCond = decide (s = .jumpCondExec) := by
  obtain ⟨fetchCycle, timeMatch, fprocReady, syncReady⟩ := inputs
  cases s with
  | fetchWait =>
    simp only [of]
    split <;> exact ⟨rfl, rfl⟩
  | decode =>
    cases op with
    | pulseWrite trigger => cases trigger <;> exact ⟨rfl, rfl⟩
    | unknown =>
      obtain ⟨widths, latency, policy⟩ := config
      cases policy <;> exact ⟨rfl, rfl⟩
    | _ => exact ⟨rfl, rfl⟩
  | aluFprocWait | jumpFprocWait => cases op <;> cases fprocReady <;> exact ⟨rfl, rfl⟩
  | _ => exact ⟨rfl, rfl⟩

theorem regWrite_iff : (of s op inputs config).regWrite = true ↔ s = .aluExec := by
  rw [regWrite_pcLoadCond.1, decide_eq_true_eq]

theorem pcLoadCond_iff : (of s op inputs config).pcLoadCond = true ↔ s = .jumpCondExec := by
  rw [regWrite_pcLoadCond.2, decide_eq_true_eq]

/-- Does the edge use the ALU result, to write a register, load the timebase or branch? -/
def UsesResult (k : Control) : Prop :=
  k.regWrite = true ∨ k.qclkLoad = true ∨ k.pcLoadCond = true

theorem UsesResult.executes (h : (of s op inputs config).UsesResult) : s.executes = true := by
  rcases h with h | h | h
  · rw [regWrite_iff.mp h]
    rfl
  · rw [qclkLoad_iff.mp h]
    rfl
  · rw [pcLoadCond_iff.mp h]
    rfl

end Control

namespace Core

variable {c c' d : Core} {config : Config}

/-! ### Coherent cores -/

/-- What the ALU captures at the next edge. -/
def fed (c : Core) : Alu := { in0 := c.lines.aluIn0, in1 := c.lines.aluIn1, op := c.control.aluOp }

/-- The state fits the instruction register, now and after any number of edges on the same lines,
    and wherever the ALU result is used, there is one. -/
structure Coherent (c : Core) : Prop where
  stage : ∀ op, c.layout.decode c.ir = .ok op → op.Stage c.state
  result : c.state.executes = true → c.alu.out.isSome = true
  /-- Unless the edge loads an instruction, the next state is one for the present instruction. -/
  nextStage : c.control.instrLoad = false →
    ∀ op, c.layout.decode c.ir = .ok op → op.Stage c.control.nextState
  nextDecode : c.control.instrLoad = true → c.control.nextState = .decode
  nextResult : c.control.nextState.executes = true → c.fed.out.isSome = true
  uses : c.control.UsesResult → c.lines.aluOut.isSome = true
  /-- Bit 0 of the result decides a branch. -/
  branch : c.control.pcLoadCond = true → c.control.pcInc = false ∧
    c.lines.pcLoad =
      if c.lines.aluOut.any (fun x => x &&& 1 == 1) then some c.lines.jumpAddr else none

namespace Coherent

/-- Contents of program memory and input lines play no role. -/
theorem edit (h : c.Coherent) (he : c.Edits d) : d.Coherent := by
  obtain ⟨words, i, rfl, -⟩ := he.eq_drive
  exact { h with }

/-- An edge leads to the state that the lines promise, and leaves the lines as they are. -/
theorem latch (h : c.Coherent) (hl : c.latch = .ok d) : d.Coherent := by
  obtain ⟨fetchCycle, retired, memory, regs, pulse, cycle, -, -, -, -, -, -, rfl⟩ :=
    latch_eq_ok.mp hl
  refine { h with stage := fun op hop => ?_, result := h.nextResult
                  nextStage := fun hload op hop => ?_ }
  · cases hload : c.control.instrLoad with
    | false =>
      simp only [hload] at hop
      exact h.nextStage hload op hop
    | true => exact .inr (.inl (h.nextDecode hload))
  · simp only [show c.control.instrLoad = false from hload] at hop
    exact h.nextStage hload op hop

/-- Settling needs the state to fit the instruction and the ALU to have its result. -/
theorem of_propagate (hp : c.propagate = .ok d)
    (hstage : ∀ op, c.layout.decode c.ir = .ok op → op.Stage c.state)
    (hresult : c.state.executes = true → c.alu.out.isSome = true) : d.Coherent := by
  have hsettled := settled_of_propagate hp
  obtain ⟨op, x, y, hop, -, -, rfl⟩ := propagate_eq_ok.mp hp
  have hcontrol := hsettled.control
  refine ⟨hstage, hresult, fun _ op' hop' => ?_, fun hload => ?_, fun hexec => ?_, fun huses => ?_,
    fun hcond => ?_⟩
  · rw [hcontrol]
    obtain rfl : op = op' := Except.ok.inj (hop.symm.trans hop')
    exact Control.stage_nextState _ _ _ (hstage op hop)
  · rw [hcontrol, Control.instrLoad_iff] at hload
    rw [hcontrol, hload.1, Control.nextState_fetchWait]
    exact if_pos hload.2
  · rw [hcontrol] at hexec
    obtain ⟨f, in0, in1, h0, h1, hf⟩ := Control.feeds_of_executes hexec
    rw [← hcontrol] at h0 h1 hf
    have hin0 : ∃ a, (c.settle op x y).lines.aluIn0 = some a := by
      rw [hsettled.aluIn0, h0]
      cases in0 <;> exact ⟨_, rfl⟩
    have hin1 : ∃ b, (c.settle op x y).lines.aluIn1 = some b := by
      rw [hsettled.aluIn1, h1]
      cases in1 <;> exact ⟨_, rfl⟩
    obtain ⟨a, ha⟩ := hin0
    obtain ⟨b, hb⟩ := hin1
    rw [fed, ha, hb, hf, Alu.out_apply]
    rfl
  · rw [hcontrol] at huses
    exact hresult huses.executes
  · rw [hcontrol, Control.pcLoadCond_iff] at hcond
    have hk : (c.settle op x y).control = { Control.goto .fetchWait with pcLoadCond := true } := by
      rw [hcontrol, hcond]
      rfl
    rw [hsettled.pcLoad, hk]
    exact ⟨rfl, rfl⟩

theorem propagate (h : c.Coherent) (hp : c.propagate = .ok d) : d.Coherent :=
  of_propagate hp h.stage h.result

theorem reset (hr : c.reset = .ok d) : d.Coherent := by
  refine of_propagate hr (fun _ _ => .inl rfl) fun hexec => ?_
  cases hexec

theorem new (h : Core.new config = pure c) : c.Coherent := by
  obtain ⟨l, core, hl, hcore, hp⟩ := new_eq_pure.mp h
  have hstate := (blank_eq_ok hl hcore).2.2.state
  refine of_propagate hp (fun _ _ => .inl hstate) fun hexec => ?_
  rw [hstate] at hexec
  cases hexec

end Coherent

theorem Reachable.coherent (h : Reachable config c) : c.Coherent := by
  induction h with
  | new h => exact .new h
  | load _ hl ih => exact ih.edit (.load hl)
  | write _ hw ih => exact ih.edit (.write hw)
  | setResponse r _ ih => exact ih.edit (.setResponse _ r)
  | setSyncReady ready _ ih => exact ih.edit (.setSyncReady _ ready)
  | latch _ hl ih => exact ih.latch hl
  | propagate _ hp ih => exact ih.propagate hp
  | reset _ hr => exact .reset hr

/-! ### What coherence gives -/

/-- A core that waits for feedback holds an operation that asks for it. -/
theorem Coherent.control_wait (h : c.Coherent) (hs : c.Settled)
    (hwait : c.state = .aluFprocWait ∨ c.state = .jumpFprocWait) :
    ∃ f in0 exec, c.operation.in0 = some in0 ∧
      c.control = .fprocWait f in0 c.lines.fprocResponse.ready c.state exec := by
  have hcontrol := hs.control
  have hadmits := (h.stage _ hs.decode).admits
  rcases hwait with hwait | hwait <;> rw [hwait] at hcontrol hadmits ⊢
  · cases hop : c.operation with
    | aluFproc f in0 write id =>
      rw [hop] at hcontrol
      exact ⟨f, in0, .aluExec, rfl, hcontrol⟩
    | _ => simp [hop, State.admits] at hadmits
  · cases hop : c.operation with
    | jumpFproc f in0 addr id =>
      rw [hop] at hcontrol
      exact ⟨f, in0, .jumpCondExec, rfl, hcontrol⟩
    | _ => simp [hop, State.admits] at hadmits

theorem Coherent.exists_result (h : c.Coherent) (huses : c.control.UsesResult) :
    ∃ x, c.lines.aluOut = some x :=
  Option.isSome_iff_exists.mp (h.uses huses)

theorem regs_of_latch {x : UInt32} (hl : c.latch = .ok d) (hw : c.control.regWrite = true)
    (hx : c.lines.aluOut = some x) : c.regs.write c.lines.writeAddr x = .ok d.regs := by
  obtain ⟨fetchCycle, retired, memory, regs, pulse, cycle, -, -, -, hregs, -, -, rfl⟩ :=
    latch_eq_ok.mp hl
  rwa [nextRegs, hw, hx] at hregs

theorem qclk_of_latch {x : UInt32} (hl : c.latch = .ok d) (hq : c.control.qclkLoad = true)
    (hx : c.lines.aluOut = some x) : d.qclk = .load x := by
  obtain ⟨fetchCycle, retired, memory, regs, pulse, cycle, -, -, -, -, -, -, rfl⟩ :=
    latch_eq_ok.mp hl
  simp only [hq, hx, if_true, Timebase.latch]

theorem Coherent.pc_of_latch (h : c.Coherent) {x : UInt32} (hl : c.latch = .ok d)
    (hcond : c.control.pcLoadCond = true) (hx : c.lines.aluOut = some x) :
    d.pc.value = if x &&& 1 == 1 then c.lines.jumpAddr &&& c.pc.mask else c.pc.value := by
  obtain ⟨hinc, hload⟩ := h.branch hcond
  obtain ⟨fetchCycle, retired, memory, regs, pulse, cycle, -, -, -, -, -, -, rfl⟩ :=
    latch_eq_ok.mp hl
  simp only [hinc, hload, hx, Option.any_some]
  split <;> rfl

/-- The state of a core fits its instruction. Building a core, loading and writing programs, driving
    the input lines, edges, settling and resets may come in any order. Whenever the lines settle,
    the state is one for the operation in the instruction register, and a core that waits for
    feedback has the lines of an operation that asks for it. Whenever an edge is to write a
    register, to load the timebase or to decide a branch, the ALU has a result, and the edge does
    so with it. -/
theorem state_admits_operation (h : Reachable config c) :
    (∃ c', c.propagate = .ok c') ∧
    (∀ c', c.propagate = .ok c' ∨ c.reset = .ok c' →
      c'.state.admits c'.operation = true ∧
      (c'.state = .aluFprocWait ∨ c'.state = .jumpFprocWait →
        ∃ f in0 exec, c'.operation.in0 = some in0 ∧
          c'.control = .fprocWait f in0 c'.lines.fprocResponse.ready c'.state exec)) ∧
    (c.control.regWrite = true → ∃ x, c.lines.aluOut = some x ∧
      ∀ d, c.latch = .ok d → c.regs.write c.lines.writeAddr x = .ok d.regs) ∧
    (c.control.qclkLoad = true → ∃ x, c.lines.aluOut = some x ∧
      ∀ d, c.latch = .ok d → d.qclk = .load x) ∧
    (c.control.pcLoadCond = true → ∃ x, c.lines.aluOut = some x ∧
      ∀ d, c.latch = .ok d → d.pc.value =
        if x &&& 1 == 1 then c.lines.jumpAddr &&& c.pc.mask else c.pc.value) := by
  have hcoherent := h.coherent
  refine ⟨h.shaped.formed.exists_propagate, fun c' hc' => ?_, fun hw => ?_, fun hq => ?_,
    fun hcond => ?_⟩
  · have hc : c'.Coherent ∧ c'.Settled := by
      rcases hc' with hp | hr
      · exact ⟨hcoherent.propagate hp, settled_of_propagate hp⟩
      · exact ⟨.reset hr, settled_of_propagate hr⟩
    exact ⟨(hc.1.stage _ hc.2.decode).admits, hc.1.control_wait hc.2⟩
  · obtain ⟨x, hx⟩ := hcoherent.exists_result (.inl hw)
    exact ⟨x, hx, fun d hl => regs_of_latch hl hw hx⟩
  · obtain ⟨x, hx⟩ := hcoherent.exists_result (.inr (.inl hq))
    exact ⟨x, hx, fun d hl => qclk_of_latch hl hq hx⟩
  · obtain ⟨x, hx⟩ := hcoherent.exists_result (.inr (.inr hcond))
    exact ⟨x, hx, fun d hl => hcoherent.pc_of_latch hl hcond hx⟩

/-- Two edges on the lines of one decode cycle, and then the word in program memory is replaced: the
    core executes the instruction that it decoded and writes its result. -/
theorem state_admits_operation_stale :
    ∃ c c' d, Reachable .narrow c ∧ c.cycle = 4 ∧
      c.propagate = .ok c' ∧ c'.state = .aluExec ∧ c'.state.admits c'.operation = true ∧
      c'.latch = .ok d ∧ ∃ x, c'.lines.aluOut = some x ∧ x = 4294967290 ∧
        c'.regs.write c'.lines.writeAddr x = .ok d.regs := by
  have hrun : ∃ fresh c₀ c₂ c₃ c₄ c c' d, Core.new .narrow = pure fresh ∧
      fresh.loadProgram [Narrow.setMinusSix] = .ok (c₀, .ok ()) ∧
      c₀.run (fun _ => {}) 2 = .ok c₂ ∧ c₂.latch = .ok c₃ ∧ c₃.latch = .ok c₄ ∧
      c₄.writeProgram 0 Narrow.incAddReg = .ok c ∧ c.cycle = 4 ∧
      c.propagate = .ok c' ∧ c'.state = .aluExec ∧ c'.control.regWrite = true ∧
      c'.lines.aluOut = some 4294967290 ∧ c'.latch = .ok d :=
    ⟨_, _, _, _, _, _, _, _, rfl, rfl, rfl, rfl, rfl, rfl, rfl, rfl, rfl, rfl, rfl, rfl⟩
  obtain ⟨fresh, c₀, c₂, c₃, c₄, c, c', d, hnew, hload, h₂, h₃, h₄, hw, hcycle, hp, hs, hen, hout,
    hl⟩ := hrun
  have hreach : Reachable _ c :=
    (((((Reachable.new hnew).load hload).run h₂).latch h₃).latch h₄).write hw
  obtain ⟨-, hadmits, -⟩ := state_admits_operation hreach
  obtain ⟨-, -, hregs, -⟩ := state_admits_operation (hreach.propagate hp)
  obtain ⟨x, hx, hwrite⟩ := hregs hen
  have hval : x = 4294967290 := Option.some.inj (hx.symm.trans hout)
  exact ⟨c, c', d, hreach, hcycle, hp, hs, (hadmits c' (.inl hp)).1, hl, x, hx, hval, hwrite d hl⟩

end Core

end Sequencer
