import Sequencer.Core.Basic

/-! One clock cycle of a core.

    `latch` is the edge: every register samples the lines of the ending cycle. `propagate` settles
    the lines of the new cycle from the registers and the two input lines. A clock is the one after
    the other; a core starts and resets with its lines settled. -/

namespace Sequencer.Core

/-! ### Settling the lines -/

/-- ALU input 0 by its selection. -/
def selectIn0 (imm data0 : UInt32) : Option In0Sel → Option UInt32
  | some .imm => some imm
  | some .reg => some data0
  | none => none

/-- ALU input 1 by its selection. -/
def selectIn1 (data1 qclk fproc : UInt32) : Option In1Sel → Option UInt32
  | some .reg => some data1
  | some .qclk => some qclk
  | some .fproc => some fproc
  | none => none

/-- The value a pulse parameter is written with, if the cycle commits and the parameter is
    enabled. -/
def selectPulse (commit : Bool) (data0 : UInt32) (f : PulseField) : Option UInt32 :=
  if commit && f.writeEn then some (if f.regSel then data0 else f.value) else none

/-- Command time of a pulse instruction, else zero. -/
def cmdTimeOf : Operation → UInt32
  | .pulseWrite _ cmdTime _ _ => cmdTime
  | _ => 0

/-- Parameters of a pulse instruction, else all off. -/
def pulseFieldsOf : Operation → Bundle PulseField
  | .pulseWrite _ _ _ fields => fields
  | _ => .fill {}

/-- The core with its lines settled for a decoded operation and the values on the read ports. -/
def settle (c : Core) (op : Operation) (data0 data1 : UInt32) : Core :=
  let imm := op.immediate.getD 0
  let cmdTime := cmdTimeOf op
  let timeMatch := c.qclk.value == cmdTime
  let control := Control.of c.state op
    { fetchCycle := c.fetchCycle
      timeMatch
      fprocReady := c.lines.fprocResponse.ready
      syncReady := c.lines.syncReady } c.config
  let aluOut := c.alu.out
  let jumpAddr := op.jumpAddr.getD 0
  let taken := control.pcLoad || (control.pcLoadCond && aluOut.any (fun x => x &&& 1 == 1))
  let pcLoad := if taken then some jumpAddr else none
  let id := op.requestId.getD 0
  { c with
    operation := op
    control
    lines :=
      { regAddr0 := op.readReg0.getD 0
        regAddr1 := op.readReg1.getD 0
        writeAddr := op.writeReg.getD 0
        imm
        jumpAddr
        cmdTime
        pulseFields := pulseFieldsOf op
        data0
        data1
        aluIn0 := selectIn0 imm data0 control.in0Sel
        aluIn1 := selectIn1 data1 c.qclk.value c.lines.fprocResponse.data control.in1Sel
        aluOut
        pcLoad
        pcOut := c.pc.out pcLoad
        timeMatch
        cstrobe := control.strobeEn && timeMatch
        phaseReset := control.pulseReset
        pulseWrites := (pulseFieldsOf op).map (selectPulse control.pulseWrite data0)
        fprocRequest := { enable := control.fprocEn, id }
        fprocResponse := c.lines.fprocResponse
        syncRequest := { enable := control.syncEn, id }
        syncReady := c.lines.syncReady
        done := control.done }
    doneCycle := if control.done && c.doneCycle.isNone then some c.cycle else c.doneCycle }

/-- Settle the lines for the current registers and inputs. -/
def propagate (c : Core) : Checked Core := do
  let op ← c.layout.decode c.ir
  let data0 ← c.regs.read (op.readReg0.getD 0)
  let data1 ← c.regs.read (op.readReg1.getD 0)
  return c.settle op data0 data1

/-! ### The clock edge -/

/-- Cycles spent fetching, after the edge. -/
def nextFetchCycle (c : Core) : Checked UInt32 :=
  if c.state = .fetchWait then
    if c.control.nextState = .fetchWait then Checked.succ32 c.fetchCycle else .ok 0
  else .ok c.fetchCycle

/-- Does the edge end an instruction? -/
def retires (c : Core) : Bool :=
  c.state ≠ .fetchWait && c.control.nextState = .fetchWait

/-- The register file after the edge. -/
def nextRegs (c : Core) : Checked RegisterFile :=
  match c.control.regWrite, c.lines.aluOut with
  | true, some data => c.regs.write c.lines.writeAddr data
  | _, _ => .ok c.regs

/-- The pulse registers after the edge. -/
def nextPulse (c : Core) : Checked PulseRegisters :=
  c.pulse.latch c.lines.pulseWrites c.lines.cstrobe c.lines.phaseReset

/-- The clock edge: all registers sample the lines of the ending cycle. -/
def latch (c : Core) : Checked Core := do
  let fetchCycle ← c.nextFetchCycle
  let retired ← if c.retires then Checked.succ64 c.retired else .ok c.retired
  let memory ← c.memory.latch c.lines.pcOut
  let regs ← c.nextRegs
  let pulse ← c.nextPulse
  let cycle ← Checked.succ64 c.cycle
  return { c with
    state := c.control.nextState
    fetchCycle
    ir := if c.control.instrLoad then c.memory.dataOut else c.ir
    pc := c.pc.latch c.control.pcInc c.lines.pcLoad
    memory
    regs
    alu := { in0 := c.lines.aluIn0, in1 := c.lines.aluIn1, op := c.control.aluOp }
    qclk := c.qclk.latch (if c.control.qclkLoad then c.lines.aluOut else none)
    pulse
    cycle
    retired }

/-- One clock cycle. -/
def clock (c : Core) : Checked Core := do
  (← c.latch).propagate

/-! ### Starting -/

/-- Every register at its reset value and the program memory empty; nothing settled. -/
def blank (config : Config) (layout : Layout) : Checked Core := do
  return {
    config
    layout
    state := .fetchWait
    fetchCycle := 0
    ir := 0
    pc := ← ProgramCounter.new layout.widths.instrAddr
    memory := ← ProgramMemory.new (← layout.programDepth) layout.widths.instr
    regs := ← RegisterFile.new layout.widths.regAddr
    alu := {}
    qclk := {}
    pulse := { widths := layout.widths.pulse }
    operation := .unknown 0
    lines := {}
    control := .goto .fetchWait
    cycle := 0
    retired := 0
    doneCycle := none }

/-- A fresh core. -/
def new (config : Config) : Attempt ConfigError Core := do
  let layout ← config.layout
  let core ← blank config layout
  core.propagate

/-- Every register back at its reset value. Program memory is kept. -/
def reset (c : Core) : Checked Core :=
  propagate { c with
    state := .fetchWait
    fetchCycle := 0
    ir := 0
    pc := c.pc.reset
    memory := c.memory.reset
    regs := c.regs.reset
    alu := {}
    qclk := {}
    pulse := c.pulse.reset
    lines := {}
    cycle := 0
    retired := 0
    doneCycle := none }

end Sequencer.Core
