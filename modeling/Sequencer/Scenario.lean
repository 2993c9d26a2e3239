import Sequencer.Cluster.Basic

/-! Scenarios: a cluster, a program for each core, and what the measurement lines do. -/

namespace Sequencer

/-- Measurement lines driven during one cycle. -/
structure MeasEvent where
  cycle : Nat
  lines : Meas
  deriving DecidableEq, Repr, Inhabited

structure Scenario where
  config : Config := {}
  /-- The file with the program of each core. -/
  programs : List String
  /-- Without one, every core has one required line, and every entry is zero. -/
  table : Option LookupTable := none
  /-- Mask of the cores that take part in the barrier; without one, all do. -/
  barrier : Option UInt32 := none
  measEvents : List MeasEvent := []
  maxCycles : Nat := 1000000
  deriving DecidableEq, Repr, Inhabited

namespace Scenario

/-- The cluster, before programs are loaded. -/
def cluster (s : Scenario) : Attempt ClusterError Cluster := do
  let nCores := s.programs.length
  let table ← s.table.getDM (LookupTable.zero nCores)
  let cluster ← Cluster.new s.config nCores table
  return s.barrier.elim cluster cluster.withBarrier

/-- The measurement lines in a cycle: what all events of that cycle drive. -/
def meas (s : Scenario) (cycle : Nat) : Meas :=
  ((s.measEvents.filter (·.cycle = cycle)).map MeasEvent.lines).foldl Meas.merge {}

end Scenario

end Sequencer
