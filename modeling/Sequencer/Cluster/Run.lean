import Sequencer.Core.Events
import Sequencer.Cluster.Step

/-! Runs of a cluster, with measurement lines given for each cycle, and the log of a run. -/

namespace Sequencer.Cluster

/-- One cycle with the lines that `meas` gives for the new cycle. -/
def clockWith (meas : Nat → Meas) (s : Cluster) : Checked Cluster := s.clock (meas (s.cycle + 1))

/-- Clock until every core is done, at most `limit` times. -/
def clockWhileRunning (meas : Nat → Meas) : (limit : Nat) → Cluster → Checked Cluster
  | 0, s => .ok s
  | limit + 1, s => do
    if s.done then return s else clockWhileRunning meas limit (← s.clockWith meas)

/-- Clock until every core is done. The cycle count is absent when the limit ran out first. -/
def clockUntilDone (limit : Nat) (meas : Nat → Meas) (s : Cluster) :
    Checked (Cluster × Option Nat) := do
  let s ← clockWhileRunning meas limit s
  return (s, if s.done then some s.cycle else none)

/-- The cluster after each of `n` clocks. -/
def states (meas : Nat → Meas) : Nat → Cluster → Checked (List Cluster)
  | 0, _ => .ok []
  | n + 1, s => do
    let next ← s.clockWith meas
    return next :: (← states meas n next)

/-- Clock `n` times. -/
def clockN (meas : Nat → Meas) : Nat → Cluster → Checked Cluster
  | 0, s => .ok s
  | n + 1, s => do clockN meas n (← s.clockWith meas)

/-! ### Events -/

/-- Events of the cores' edges, from number `index` on, given the cores before and after. -/
def coreEvents : (index : Nat) → List Core → List Core → List LogEntry
  | index, c :: cs, edge :: edges =>
    (c.latchEvents edge).map (fun event => { core := some index, event }) ++
      coreEvents (index + 1) cs edges
  | _, _, _ => []

/-- Events of the edge that ends the current cycle, given the cluster before and after it. -/
def latchEvents (s edge : Cluster) : List LogEntry :=
  (s.lut.latchEvents ++ edge.barrier.latchEvents).map (LogEntry.mk none) ++
    coreEvents 0 s.cores edge.cores

/-- Events of settling the lines, given the cluster before and after. -/
def propagateEvents (before after : Cluster) : List LogEntry :=
  (List.zipWith Core.propagateEvents before.cores after.cores).flatten.map (LogEntry.mk none)

/-- Append the events of `n` clocks to a log. -/
def logFrom (meas : Nat → Meas) (log : Array LogEntry) : Nat → Cluster → Checked (Array LogEntry)
  | 0, _ => .ok log
  | n + 1, s => do
    let edge ← s.latch
    let next ← edge.propagate (meas (s.cycle + 1))
    logFrom meas (log ++ (s.latchEvents edge).toArray ++ (propagateEvents edge next).toArray) n next

/-- The events of `n` clocks. -/
def log (meas : Nat → Meas) (n : Nat) (s : Cluster) : Checked (List LogEntry) := do
  return (← logFrom meas #[] n s).toList

end Sequencer.Cluster
