/-! The free-running timebase that pulses are scheduled against. -/

namespace Sequencer

/-- A 32-bit count of cycles that wraps. -/
structure Timebase where
  value : UInt32 := 0
  deriving DecidableEq, Repr, Inhabited

namespace Timebase

/-- Cycles between the ALU sampling the timebase and a loaded value taking effect. A load adds them,
    so that an increment by `n` leaves the timebase exactly `n` ahead of where it would have
    been. -/
def loadLatency : UInt32 := 2

def tick (t : Timebase) : Timebase := ⟨t.value + 1⟩

def load (result : UInt32) : Timebase := ⟨result + loadLatency⟩

/-- The clock edge: load an ALU result, or count on. -/
def latch (t : Timebase) : Option UInt32 → Timebase
  | some result => load result
  | none => t.tick

end Timebase

end Sequencer
