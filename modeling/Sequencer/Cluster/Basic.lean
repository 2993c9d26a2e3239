import Sequencer.Barrier
import Sequencer.Core.Step
import Sequencer.Lookup.Distributor

/-! Several cores that share one feedback distributor and one barrier, stepped by the same clock. -/

namespace Sequencer

/-- Most cores that a table entry and a barrier mask can name. -/
def maxCores : Nat := 32

/-- Why a cluster cannot be built. -/
inductive ClusterError where
  | noCores
  | tooManyCores (n : Nat)
  | config (error : ConfigError)
  | table (error : TableError)
  deriving DecidableEq, Repr

def ClusterError.message : ClusterError → String
  | noCores => "a system needs at least one core"
  | tooManyCores n => s!"{n} cores requested but at most {maxCores} are supported"
  | config error => error.message
  | table error => error.message

structure Cluster where
  cores : List Core
  lut : Distributor
  barrier : Barrier
  cycle : Nat := 0
  deriving DecidableEq, Repr

namespace Cluster

/-- The mask of the first `n` cores, for `n` of 1 to 32. -/
def everyCore (n : Nat) : Checked UInt32 := do
  Checked.shiftRight 0xffffffff (← Checked.sub maxCores n)

/-- A cluster of `nCores` cores, all of which take part in the barrier. -/
def new (config : Config) (nCores : Nat) (table : LookupTable) : Attempt ClusterError Cluster := do
  if nCores = 0 then throw .noCores
  if maxCores < nCores then throw (.tooManyCores nCores)
  let core ← (Core.new config).adapt .config
  let lut ← (Distributor.new table nCores).adapt .table
  return { cores := List.replicate nCores core
           lut
           barrier := { participants := ← everyCore nCores } }

/-- Replace the barrier. -/
def withBarrier (s : Cluster) (participants : UInt32) : Cluster :=
  { s with barrier := { participants := participants } }

def core (s : Cluster) (index : Nat) : Checked Core := Checked.get s.cores index

/-- Replace one core. -/
def setCore (s : Cluster) (index : Nat) (c : Core) : Cluster :=
  { s with cores := s.cores.set index c }

/-- Is every core done? -/
def done (s : Cluster) : Bool := s.cores.all Core.done

end Cluster

end Sequencer
