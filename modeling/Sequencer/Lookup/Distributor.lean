import Sequencer.Lookup.Client
import Sequencer.Lookup.Round

/-! The feedback distributor: one shared round and a client for each attached core. -/

namespace Sequencer

structure Distributor where
  round : Round
  clients : List Client
  /-- Lines of the current cycle. -/
  meas : Meas := {}
  responses : List Response
  deriving DecidableEq, Repr, Inhabited

namespace Distributor

/-- A distributor for `nCores` cores. -/
def new (table : LookupTable) (nCores : Nat) : Attempt TableError Distributor := do
  table.validate nCores
  return { round := { table := table }
           clients := (List.range nCores).map (fun core => { core := core })
           responses := List.replicate nCores {} }

/-- The edge of the clients; one without a request keeps its state. -/
def latchClients : List Client → List Request → List Response → List Client
  | c :: cs, q :: qs, r :: rs => c.latch q r.ready :: latchClients cs qs rs
  | cs, _, _ => cs

/-- The clock edge, with the requests of the ending cycle. -/
def latch (d : Distributor) (requests : List Request) : Distributor :=
  { d with
    round := d.round.latch d.meas
    clients := latchClients d.clients requests d.responses }

/-- The events of the edge. -/
def latchEvents (d : Distributor) : List Event := d.round.latchEvents d.meas

/-- Responses of the clients; a response line without a client keeps its value. -/
def respondAll (m : Meas) (entry : Option UInt32) :
    List Client → List Response → Checked (List Response)
  | c :: cs, _ :: rs => do return (← c.respond m entry) :: (← respondAll m entry cs rs)
  | _, rs => .ok rs

/-- Settle the responses for the lines of a cycle. -/
def propagate (d : Distributor) (m : Meas) : Checked Distributor := do
  return { d with
    meas := m
    responses := ← respondAll m d.round.output d.clients d.responses }

def response (d : Distributor) (core : Nat) : Checked Response := Checked.get d.responses core

def client (d : Distributor) (core : Nat) : Checked Client := Checked.get d.clients core

def reset (d : Distributor) : Distributor :=
  { d with
    round := d.round.reset
    clients := d.clients.map Client.reset
    meas := {}
    responses := d.responses.map (fun _ => {}) }

end Distributor

end Sequencer
