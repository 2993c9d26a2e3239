import Sequencer.Core.Step
import Sequencer.Proofs.Checked

/-! One cycle of a core, register by register.

    A core is settled when settling changes nothing: its lines are the ones that its registers and
    inputs give. `Tick i c c'` says everything that one cycle does, with `i` on the input lines of
    the new cycle: how each register of `c'` follows from the lines of `c`, and that `c'` is
    settled. A clock of a driven core is such a tick (`tick_of_clock`), and so is an edge after
    which a peer drives the lines (`tick_of_edge`). -/

namespace Sequencer

/-- The lines that the peers of a core drive during one cycle. -/
structure Inputs where
  response : Response := {}
  syncReady : Bool := false
  deriving DecidableEq, Repr, Inhabited

namespace Core

/-- Drive the input lines. Nothing settles. -/
def drive (c : Core) (i : Inputs) : Core := (c.setResponse i.response).setSyncReady i.syncReady

/-- The core with other contents of program memory. -/
def holding (c : Core) (words : Array Word) : Core :=
  { c with memory := { c.memory with words } }

@[simp] theorem holding_words (c : Core) (words : Array Word) :
    (c.holding words).memory.words = words := rfl

theorem drive_drive (c : Core) (i j : Inputs) : (c.drive i).drive j = c.drive j := by
  simp only [drive, setResponse, setSyncReady]

theorem holding_drive (c : Core) (i : Inputs) (words : Array Word) :
    (c.drive i).holding words = (c.holding words).drive i := by
  simp only [drive, setResponse, setSyncReady, holding]

/-- What the control unit sees besides its state and the operation. -/
def timing (c : Core) : TimingInputs :=
  { fetchCycle := c.fetchCycle
    timeMatch := c.qclk.value == cmdTimeOf c.operation
    fprocReady := c.lines.fprocResponse.ready
    syncReady := c.lines.syncReady }

/-! ### Settled cores -/

/-- The lines are those that the registers and the inputs give. -/
def Settled (c : Core) : Prop := c.propagate = .ok c

variable {c c' : Core} {i : Inputs}

theorem propagate_eq_ok :
    c.propagate = .ok c' ↔ ∃ op data0 data1, c.layout.decode c.ir = .ok op ∧
      c.regs.read (op.readReg0.getD 0) = .ok data0 ∧ c.regs.read (op.readReg1.getD 0) = .ok data1 ∧
      c' = c.settle op data0 data1 := by
  simp only [propagate, Checked.bind_eq_ok, Checked.pure_eq_ok, Except.ok.injEq]
  constructor
  · rintro ⟨op, hop, data0, h0, data1, h1, rfl⟩
    exact ⟨op, data0, data1, hop, h0, h1, rfl⟩
  · rintro ⟨op, data0, data1, hop, h0, h1, rfl⟩
    exact ⟨op, hop, data0, h0, data1, h1, rfl⟩

/-- The cycle of the first `done` is kept. -/
theorem firstDone_idem (done : Bool) (cycle : Nat) (first : Option Nat) :
    (if done && (if done && first.isNone then some cycle else first).isNone then some cycle
      else if done && first.isNone then some cycle else first) =
    if done && first.isNone then some cycle else first := by
  cases done <;> cases first <;> rfl

theorem settle_settle {op : Operation} {x y : UInt32} :
    (c.settle op x y).settle op x y = c.settle op x y :=
  congrArg (fun first => { c.settle op x y with doneCycle := first })
    (firstDone_idem (c.settle op x y).control.done c.cycle c.doneCycle)

theorem settled_of_propagate (h : c.propagate = .ok c') : c'.Settled := by
  obtain ⟨op, data0, data1, hop, h0, h1, rfl⟩ := propagate_eq_ok.mp h
  exact propagate_eq_ok.mpr ⟨op, data0, data1, hop, h0, h1, settle_settle.symm⟩

namespace Settled

theorem eq_settle (h : c.Settled) :
    c.layout.decode c.ir = .ok c.operation ∧
      c.regs.read (c.operation.readReg0.getD 0) = .ok c.lines.data0 ∧
      c.regs.read (c.operation.readReg1.getD 0) = .ok c.lines.data1 ∧
      c = c.settle c.operation c.lines.data0 c.lines.data1 := by
  obtain ⟨op, data0, data1, hop, h0, h1, hc⟩ := propagate_eq_ok.mp h
  obtain rfl : c.operation = op := congrArg Core.operation hc
  obtain rfl : c.lines.data0 = data0 := congrArg (·.lines.data0) hc
  obtain rfl : c.lines.data1 = data1 := congrArg (·.lines.data1) hc
  exact ⟨hop, h0, h1, hc⟩

theorem decode (h : c.Settled) : c.layout.decode c.ir = .ok c.operation := h.eq_settle.1

theorem data0 (h : c.Settled) : c.regs.read (c.operation.readReg0.getD 0) = .ok c.lines.data0 :=
  h.eq_settle.2.1

theorem data1 (h : c.Settled) : c.regs.read (c.operation.readReg1.getD 0) = .ok c.lines.data1 :=
  h.eq_settle.2.2.1

theorem control (h : c.Settled) : c.control = Control.of c.state c.operation c.timing c.config :=
  congrArg Core.control h.eq_settle.2.2.2

theorem writeAddr (h : c.Settled) : c.lines.writeAddr = c.operation.writeReg.getD 0 :=
  congrArg (·.lines.writeAddr) h.eq_settle.2.2.2

theorem aluIn0 (h : c.Settled) :
    c.lines.aluIn0 = selectIn0 (c.operation.immediate.getD 0) c.lines.data0 c.control.in0Sel := by
  rw [h.control]
  exact congrArg (·.lines.aluIn0) h.eq_settle.2.2.2

theorem aluIn1 (h : c.Settled) :
    c.lines.aluIn1 =
      selectIn1 c.lines.data1 c.qclk.value c.lines.fprocResponse.data c.control.in1Sel := by
  rw [h.control]
  exact congrArg (·.lines.aluIn1) h.eq_settle.2.2.2

theorem aluOut (h : c.Settled) : c.lines.aluOut = c.alu.out :=
  congrArg (·.lines.aluOut) h.eq_settle.2.2.2

theorem pcLoad (h : c.Settled) :
    c.lines.pcLoad =
      if c.control.pcLoad || (c.control.pcLoadCond && c.alu.out.any (fun x => x &&& 1 == 1)) then
        some (c.operation.jumpAddr.getD 0)
      else none := by
  rw [h.control]
  exact congrArg (·.lines.pcLoad) h.eq_settle.2.2.2

theorem pcOut (h : c.Settled) : c.lines.pcOut = c.pc.out c.lines.pcLoad := by
  rw [h.pcLoad, h.control]
  exact congrArg (·.lines.pcOut) h.eq_settle.2.2.2

theorem fprocRequest (h : c.Settled) :
    c.lines.fprocRequest = ⟨c.control.fprocEn, c.operation.requestId.getD 0⟩ := by
  rw [h.control]
  exact congrArg (·.lines.fprocRequest) h.eq_settle.2.2.2

theorem syncRequest (h : c.Settled) :
    c.lines.syncRequest = ⟨c.control.syncEn, c.operation.requestId.getD 0⟩ := by
  rw [h.control]
  exact congrArg (·.lines.syncRequest) h.eq_settle.2.2.2

theorem cstrobe (h : c.Settled) :
    c.lines.cstrobe = (c.control.strobeEn && c.timing.timeMatch) := by
  rw [h.control]
  exact congrArg (·.lines.cstrobe) h.eq_settle.2.2.2

theorem phaseReset (h : c.Settled) : c.lines.phaseReset = c.control.pulseReset := by
  rw [h.control]
  exact congrArg (·.lines.phaseReset) h.eq_settle.2.2.2

theorem pulseWrites (h : c.Settled) :
    c.lines.pulseWrites =
      (pulseFieldsOf c.operation).map (selectPulse c.control.pulseWrite c.lines.data0) := by
  rw [h.control]
  exact congrArg (·.lines.pulseWrites) h.eq_settle.2.2.2

end Settled

/-! ### Ticks -/

/-- One cycle from `c` to `c'`, with `i` on the input lines of the new cycle. -/
structure Tick (i : Inputs) (c c' : Core) : Prop where
  config : c'.config = c.config
  layout : c'.layout = c.layout
  state : c'.state = c.control.nextState
  fetchCycle : c.nextFetchCycle = .ok c'.fetchCycle
  ir : c'.ir = if c.control.instrLoad then c.memory.dataOut else c.ir
  pc : c'.pc = c.pc.latch c.control.pcInc c.lines.pcLoad
  memory : c.memory.latch c.lines.pcOut = .ok c'.memory
  regs : c.nextRegs = .ok c'.regs
  alu : c'.alu = { in0 := c.lines.aluIn0, in1 := c.lines.aluIn1, op := c.control.aluOp }
  qclk : c'.qclk = c.qclk.latch (if c.control.qclkLoad then c.lines.aluOut else none)
  pulse : c.nextPulse = .ok c'.pulse
  cycle : c'.cycle = c.cycle + 1
  cycle_lt : c.cycle + 1 < 1 <<< 64
  retired : c'.retired = if c.retires then c.retired + 1 else c.retired
  response : c'.lines.fprocResponse = i.response
  syncReady : c'.lines.syncReady = i.syncReady
  settled : c'.Settled

/-- What the edge stores. -/
theorem latch_eq_ok :
    c.latch = .ok c' ↔ ∃ fetchCycle retired memory regs pulse cycle,
      c.nextFetchCycle = .ok fetchCycle ∧
      (if c.retires then Checked.succ64 c.retired else .ok c.retired) = .ok retired ∧
      c.memory.latch c.lines.pcOut = .ok memory ∧ c.nextRegs = .ok regs ∧
      c.nextPulse = .ok pulse ∧ Checked.succ64 c.cycle = .ok cycle ∧
      c' = { c with
        state := c.control.nextState
        fetchCycle
        ir := if c.control.instrLoad then c.memory.dataOut else c.ir
        pc := c.pc.latch c.control.pcInc c.lines.pcLoad
        memory
        regs
        alu := { in0 := c.lines.aluIn0, in1 := c.lines.aluIn1, op := c.control.aluOp }
        qclk := c.qclk.latch (if c.control.qclkLoad then c.lines.aluOut else none)
        pulse
        cycle
        retired } := by
  constructor
  · intro h
    cases hr : c.retires <;>
      simp only [latch, hr, if_true, if_false, Bool.false_eq_true, Checked.bind_eq_ok,
        Checked.pure_eq_ok, Except.ok.injEq] at h ⊢ <;>
      obtain ⟨fetchCycle, h1, retired, h2, memory, h3, regs, h4, pulse, h5, cycle, h6, rfl⟩ := h <;>
      exact ⟨fetchCycle, retired, memory, regs, pulse, cycle, h1, h2, h3, h4, h5, h6, rfl⟩
  · rintro ⟨fetchCycle, retired, memory, regs, pulse, cycle, h1, h2, h3, h4, h5, h6, rfl⟩
    cases hr : c.retires <;>
      simp only [latch, hr, if_true, if_false, Bool.false_eq_true] at h2 ⊢ <;>
      rw [h1, Checked.ok_bind, h2, h3, h4, h5, h6] <;> rfl

/-- Driving the lines before the edge or after it makes no difference. -/
theorem latch_drive_eq_ok :
    (c.drive i).latch = .ok c' ↔ ∃ edge, c.latch = .ok edge ∧ c' = edge.drive i := by
  simp only [latch_eq_ok]
  constructor
  · rintro ⟨fetchCycle, retired, memory, regs, pulse, cycle, h1, h2, h3, h4, h5, h6, rfl⟩
    exact ⟨_, ⟨fetchCycle, retired, memory, regs, pulse, cycle, h1, h2, h3, h4, h5, h6, rfl⟩, rfl⟩
  · rintro ⟨_, ⟨fetchCycle, retired, memory, regs, pulse, cycle, h1, h2, h3, h4, h5, h6, rfl⟩, rfl⟩
    exact ⟨fetchCycle, retired, memory, regs, pulse, cycle, h1, h2, h3, h4, h5, h6, rfl⟩

theorem clock_drive_eq_ok :
    (c.drive i).clock = .ok c' ↔
      ∃ edge, c.latch = .ok edge ∧ (edge.drive i).propagate = .ok c' := by
  simp only [clock, Checked.bind_eq_ok, latch_drive_eq_ok]
  constructor
  · rintro ⟨_, ⟨edge, hedge, rfl⟩, h⟩
    exact ⟨edge, hedge, h⟩
  · rintro ⟨edge, hedge, h⟩
    exact ⟨_, ⟨edge, hedge, rfl⟩, h⟩

/-- An edge after which the lines are driven and settle is a tick. -/
theorem tick_of_edge {edge : Core} (hedge : c.latch = .ok edge)
    (h : (edge.drive i).propagate = .ok c') : Tick i c c' := by
  have hsettled := settled_of_propagate h
  obtain ⟨op, x, y, -, -, -, rfl⟩ := propagate_eq_ok.mp h
  obtain ⟨fetchCycle, retired, memory, regs, pulse, cycle, hfetch, hretired, hmemory, hregs, hpulse,
    hcycle, rfl⟩ := latch_eq_ok.mp hedge
  obtain ⟨hlt, rfl⟩ := Checked.succ64_eq_ok.mp hcycle
  have hretired' : retired = if c.retires then c.retired + 1 else c.retired := by
    split at hretired
    case isTrue hr => rw [if_pos hr, (Checked.succ64_eq_ok.mp hretired).2]
    case isFalse hr => rw [if_neg hr, ← Except.ok.inj hretired]
  exact {
    config := rfl
    layout := rfl
    state := rfl
    fetchCycle := hfetch
    ir := rfl
    pc := rfl
    memory := hmemory
    regs := hregs
    alu := rfl
    qclk := rfl
    pulse := hpulse
    cycle := rfl
    cycle_lt := hlt
    retired := hretired'
    response := rfl
    syncReady := rfl
    settled := hsettled }

/-- A clock of a driven core is a tick. -/
theorem tick_of_clock (h : (c.drive i).clock = .ok c') : Tick i c c' := by
  obtain ⟨edge, hedge, hpropagate⟩ := clock_drive_eq_ok.mp h
  exact tick_of_edge hedge hpropagate

end Core

end Sequencer
