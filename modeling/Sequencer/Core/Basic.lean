import Sequencer.Core.Alu
import Sequencer.Core.Control
import Sequencer.Core.Lines
import Sequencer.Core.ProgramCounter
import Sequencer.Core.ProgramMemory
import Sequencer.Core.RegisterFile
import Sequencer.Core.Timebase
import Sequencer.Isa.Encoding

/-! One pulse-sequencing core: its registers, the lines of the current cycle, and its counters. -/

namespace Sequencer

structure Core where
  config : Config
  layout : Layout
  state : State
  fetchCycle : UInt32
  /-- The instruction register. -/
  ir : Word
  pc : ProgramCounter
  memory : ProgramMemory
  regs : RegisterFile
  alu : Alu
  qclk : Timebase
  pulse : PulseRegisters
  /-- The instruction register decoded, as last settled. -/
  operation : Operation
  lines : Lines
  control : Control
  cycle : Nat
  retired : Nat
  /-- The cycle on which the core first decoded `done`. -/
  doneCycle : Option Nat
  deriving DecidableEq, Repr

/-- Architectural state of a core at the start of a cycle. -/
structure Snapshot where
  cycle : Nat
  retired : Nat
  state : State
  pc : UInt16
  qclk : UInt32
  registers : List UInt32
  pulse : PulseOutputs
  done : Bool
  deriving DecidableEq, Repr, Inhabited

/-- A program that does not fit. -/
structure ProgramTooLong where
  length : Nat
  depth : Nat
  deriving DecidableEq, Repr

def ProgramTooLong.message (e : ProgramTooLong) : String :=
  s!"program of {e.length} words does not fit in {e.depth} words of program memory"

namespace Core

def done (c : Core) : Bool := c.lines.done

def snapshot (c : Core) : Snapshot :=
  { cycle := c.cycle
    retired := c.retired
    state := c.state
    pc := c.pc.value
    qclk := c.qclk.value
    registers := c.regs.regs.toList
    pulse := c.pulse.out
    done := c.done }

/-- Drive the feedback response line. Nothing settles. -/
def setResponse (c : Core) (r : Response) : Core :=
  { c with lines := { c.lines with fprocResponse := r } }

/-- Drive the barrier's ready line. Nothing settles. -/
def setSyncReady (c : Core) (ready : Bool) : Core :=
  { c with lines := { c.lines with syncReady := ready } }

/-! ### Loading programs -/

/-- Write one word of program memory. The running state is not disturbed. -/
def writeProgram (c : Core) (addr : Nat) (w : Word) : Checked Core := do
  return { c with memory := ← c.memory.write addr w }

/-- Write consecutive words from an address on. -/
def writeWords (c : Core) (addr : Nat) : List Word → Checked Core
  | [] => .ok c
  | w :: ws => do (← c.writeProgram addr w).writeWords (addr + 1) ws

/-- Load a program at address zero: the core that is left, and whether the program was too long. -/
def loadProgram (c : Core) (program : List Word) : Checked (Core × Except ProgramTooLong Unit) := do
  if c.memory.depth < program.length then
    return (c, .error ⟨program.length, c.memory.depth⟩)
  else return (← c.writeWords 0 program, .ok ())

end Core

end Sequencer
