import Sequencer.Core.PulseRegisters
import Sequencer.Isa.Operation

/-! Lines of the datapath, settled once per cycle, and the handshakes of a core with its peers. A
    core holds the enable of a request until the peer answers ready. -/

namespace Sequencer

/-- A request to the feedback distributor or to the barrier. -/
structure Request where
  enable : Bool := false
  id : UInt16 := 0
  deriving DecidableEq, Repr, Inhabited

/-- An answer of the feedback distributor. -/
structure Response where
  ready : Bool := false
  data : UInt32 := 0
  deriving DecidableEq, Repr, Inhabited

structure Lines where
  regAddr0 : UInt8 := 0
  regAddr1 : UInt8 := 0
  writeAddr : UInt8 := 0
  imm : UInt32 := 0
  jumpAddr : UInt16 := 0
  cmdTime : UInt32 := 0
  pulseFields : Bundle PulseField := .fill {}
  data0 : UInt32 := 0
  data1 : UInt32 := 0
  aluIn0 : Option UInt32 := none
  aluIn1 : Option UInt32 := none
  aluOut : Option UInt32 := none
  /-- Load value when a jump is taken. -/
  pcLoad : Option UInt16 := none
  /-- Address presented to program memory. -/
  pcOut : UInt16 := 0
  /-- The timebase equals the command time. -/
  timeMatch : Bool := false
  /-- Input of the strobe register. -/
  cstrobe : Bool := false
  /-- Input of the phase reset register. -/
  phaseReset : Bool := false
  pulseWrites : PulseWrites := .fill none
  fprocRequest : Request := {}
  /-- Driven by the feedback distributor. -/
  fprocResponse : Response := {}
  syncRequest : Request := {}
  /-- Driven by the barrier. -/
  syncReady : Bool := false
  done : Bool := false
  deriving DecidableEq, Repr, Inhabited

end Sequencer
