import Sequencer.Cluster.Basic

/-! One clock cycle of a cluster: the distributor, the barrier and every core see the same edge;
    then the distributor settles, and after it the cores that read it. -/

namespace Sequencer.Cluster

/-- The feedback requests of the cores. -/
def fprocRequests (s : Cluster) : List Request := s.cores.map (fun c => c.lines.fprocRequest)

/-- The barrier requests of the cores. -/
def syncRequests (s : Cluster) : List Request := s.cores.map (fun c => c.lines.syncRequest)

/-- The clock edge of every core. -/
def latchCores : List Core → Checked (List Core)
  | [] => .ok []
  | c :: cs => do return (← c.latch) :: (← latchCores cs)

/-- The clock edge. -/
def latch (s : Cluster) : Checked Cluster := do
  let barrier ← s.barrier.latch s.syncRequests
  let cores ← latchCores s.cores
  let cycle ← Checked.succ64 s.cycle
  return { cores, lut := s.lut.latch s.fprocRequests, barrier, cycle }

/-- Settle the cores from number `index` on. -/
def propagateCores (lut : Distributor) (barrier : Barrier) :
    (index : Nat) → List Core → Checked (List Core)
  | _, [] => .ok []
  | index, c :: cs => do
    let response ← lut.response index
    let ready ← barrier.ready index
    let c ← ((c.setResponse response).setSyncReady ready).propagate
    return c :: (← propagateCores lut barrier (index + 1) cs)

/-- Settle the lines of a cycle with `m` on the measurement lines. -/
def propagate (s : Cluster) (m : Meas) : Checked Cluster := do
  let lut ← s.lut.propagate m
  return { s with lut, cores := ← propagateCores lut s.barrier 0 s.cores }

/-- One cycle, with `m` on the measurement lines during the new cycle. -/
def clock (s : Cluster) (m : Meas) : Checked Cluster := do
  (← s.latch).propagate m

/-- Reset every core. -/
def resetCores : List Core → Checked (List Core)
  | [] => .ok []
  | c :: cs => do return (← c.reset) :: (← resetCores cs)

/-- Everything back at its reset value. Programs and the barrier mask are kept. -/
def reset (s : Cluster) : Checked Cluster := do
  let cores ← resetCores s.cores
  propagate { cores, lut := s.lut.reset, barrier := s.barrier.reset, cycle := 0 } {}

end Sequencer.Cluster
