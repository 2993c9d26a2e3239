import Sequencer.Core.Run
import Sequencer.Event

/-! The events of a core. They are functions of its states, so a run needs no log of its own: the
    log of a run is read off the states it passes through. -/

namespace Sequencer.Core

/-- Events of the state register. -/
def stateEvents (c : Core) : List Event :=
  let next := c.control.nextState
  (if next ≠ c.state then [.transition c.cycle c.state next] else []) ++
  (if c.retires then [.retired c.cycle c.pc.value c.operation] else []) ++
  (if next ≠ c.state then
    match c.state with
    | .aluFprocWait | .jumpFprocWait => [.fprocReady c.cycle c.lines.fprocResponse.data]
    | .syncWait => [.syncReleased c.cycle c.lines.syncRequest.id]
    | _ => []
  else [])

/-- Events of the pulse registers, given the core before and after the edge. -/
def pulseEvents (c edge : Core) : List Event :=
  (if c.lines.phaseReset then [.phaseReset c.cycle] else []) ++
  (if c.lines.cstrobe then [.strobe c.cycle c.lines.cmdTime edge.pulse.out.data]
  else if c.lines.pulseWrites.any then [.pulseWritten c.cycle]
  else [])

/-- Events of the edge that ends the current cycle, given the core before and after it. -/
def latchEvents (c edge : Core) : List Event :=
  c.stateEvents ++ (c.lines.pcLoad.map (Event.pcLoad c.cycle)).toList ++ c.pulseEvents edge

/-- Events of settling the lines, given the core before and after: the first `done`. -/
def propagateEvents (before after : Core) : List Event :=
  if before.doneCycle.isNone then (after.doneCycle.map Event.done).toList else []

/-- Append the events of `n` clocks to a log. -/
def logFrom (log : Array Event) : Nat → Core → Checked (Array Event)
  | 0, _ => .ok log
  | n + 1, c => do
    let edge ← c.latch
    let next ← edge.propagate
    logFrom (log ++ (c.latchEvents edge).toArray ++ (propagateEvents edge next).toArray) n next

/-- The events of `n` clocks. -/
def log (n : Nat) (c : Core) : Checked (List Event) := do
  return (← logFrom #[] n c).toList

end Sequencer.Core
