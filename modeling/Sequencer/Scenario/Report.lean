import Sequencer.Cluster.Run
import Sequencer.Json.Value
import Sequencer.Scenario

/-! The run of a scenario: every strobe on the way and the cores at the end. -/

namespace Sequencer

/-- The outputs of a core in a cycle in which its strobe is high. -/
structure Strobe where
  cycle : Nat
  core : Nat
  outputs : PulseOutputs
  deriving DecidableEq, Repr, Inhabited

/-- What a run ends with. -/
structure Report where
  cycles : Nat
  done : Bool
  strobes : List Strobe
  cores : List Snapshot
  deriving DecidableEq, Repr, Inhabited

/-- The strobes of the current cycle, in the order of the cores. -/
def Cluster.strobes (s : Cluster) : List Strobe :=
  s.cores.zipIdx.filterMap (fun (c, core) =>
    if c.pulse.out.cstrobe then some { cycle := s.cycle, core, outputs := c.pulse.out } else none)

/-- Clock while a core is not done and the cycle count is below `limit`, and append the strobes on
    the way. The bound on the rounds is there for the recursion to end. -/
def Cluster.runRounds (meas : Nat → Meas) (limit : Nat) :
    (rounds : Nat) → Array Strobe → Cluster → Checked (Array Strobe × Cluster)
  | 0, strobes, s => .ok (strobes, s)
  | rounds + 1, strobes, s => do
    if !s.done && s.cycle < limit then
      let next ← s.clockWith meas
      runRounds meas limit rounds (strobes ++ next.strobes.toArray) next
    else return (strobes, s)

/-- Clock until every core is done or the cycle count is `limit`. A round is a cycle, so there are
    at most as many as cycles up to the limit. -/
def Cluster.runFrom (meas : Nat → Meas) (limit : Nat) (strobes : Array Strobe) (s : Cluster) :
    Checked (Array Strobe × Cluster) :=
  runRounds meas limit (limit - s.cycle) strobes s

namespace Scenario

/-- Run the scenario on its cluster, for at most `limit` cycles. -/
def run (s : Scenario) (limit : Nat) (cluster : Cluster) : Checked Report := do
  let (strobes, last) ← cluster.runFrom s.meas limit #[]
  return {
    cycles := last.cycle
    done := last.done
    strobes := strobes.toList
    cores := last.cores.map Core.snapshot }

/-- The log of the run that ended with a report. -/
def log (s : Scenario) (cluster : Cluster) (report : Report) : Checked (List LogEntry) := do
  let event : Event := if report.done then .allDone report.cycles else .limitReached report.cycles
  return (← cluster.log s.meas (report.cycles - cluster.cycle)) ++ [{ event := event }]

end Scenario

/-! ### Reports as JSON -/

open Json

def PulseOutputs.value (o : PulseOutputs) : Value :=
  .object ((Bundle.keys.zipWith (fun key n => (key, Value.nat n.toNat)) o.data).toList ++
    [("cstrobe", .bool o.cstrobe), ("phase_reset", .bool o.phaseReset)])

def Strobe.value (s : Strobe) : Value :=
  .object [("cycle", .nat s.cycle), ("core", .nat s.core), ("outputs", s.outputs.value)]

def Snapshot.value (s : Snapshot) : Value :=
  .object
    [("cycle", .nat s.cycle), ("retired", .nat s.retired), ("state", .string s.state.name),
     ("pc", .nat s.pc.toNat), ("qclk", .nat s.qclk.toNat),
     ("registers", .list (s.registers.map (fun r => .nat r.toNat))), ("pulse", s.pulse.value),
     ("done", .bool s.done)]

def Report.value (r : Report) : Value :=
  .object
    [("cycles", .nat r.cycles), ("done", .bool r.done),
     ("strobes", .list (r.strobes.map Strobe.value)),
     ("cores", .list (r.cores.map Snapshot.value))]

end Sequencer
