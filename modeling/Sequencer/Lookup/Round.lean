import Sequencer.Event
import Sequencer.Lookup.Table

/-! Rounds of measurements.

    While a round waits, the bits of valid required lines accumulate into a table address. When
    every required line has been valid the entry is presented for one cycle, and the next round
    starts empty. Measurements that arrive while the entry is presented belong to no round. -/

namespace Sequencer

inductive RoundState where
  | wait
  | ready
  deriving DecidableEq, Repr, Inhabited

def RoundState.text : RoundState → String
  | wait => "WAIT"
  | ready => "READY"

structure Round where
  table : LookupTable
  state : RoundState := .wait
  /-- Required lines that have been valid. -/
  valid : UInt32 := 0
  addr : UInt32 := 0
  deriving DecidableEq, Repr, Inhabited

namespace Round

/-- The entry of the completed round. -/
def output (r : Round) : Option UInt32 :=
  match r.state with
  | .ready => r.table.entries[r.addr.toNat]?
  | .wait => none

/-- Accumulate the lines of one cycle. -/
def accumulate (r : Round) (m : Meas) : Round :=
  let arrived := m.valid &&& r.table.requiredMask
  { r with valid := r.valid ||| arrived, addr := r.addr ||| (m.meas &&& arrived) }

/-- Has every required line been valid? A table that requires none never completes a round. -/
def complete (r : Round) : Bool := r.table.requiredMask ≠ 0 && r.valid == r.table.requiredMask

def reset (r : Round) : Round := { r with state := .wait, valid := 0, addr := 0 }

/-- The clock edge, with the lines of the ending cycle. -/
def latch (r : Round) (m : Meas) : Round :=
  match r.state with
  | .wait =>
    let r := r.accumulate m
    if r.complete then { r with state := .ready } else r
  | .ready => r.reset

/-- The events of the edge. -/
def latchEvents (r : Round) (m : Meas) : List Event :=
  match r.state, (r.latch m).state with
  | .wait, .ready => [.roundComplete (r.latch m).addr]
  | _, _ => []

end Round

end Sequencer
