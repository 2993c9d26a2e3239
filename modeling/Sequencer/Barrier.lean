import Sequencer.Core.Lines
import Sequencer.Event

/-! The barrier network.

    Once every participant requests the same barrier id, all of them are released for one cycle.
    Participants that request different ids are never released. -/

namespace Sequencer

structure Barrier where
  /-- Bit `i` is set when core `i` takes part. -/
  participants : UInt32
  fire : Bool := false
  deriving DecidableEq, Repr, Inhabited

namespace Barrier

/-- Does a core take part? The mask has no bit for a core beyond its width. -/
def isParticipant (b : Barrier) (core : Nat) : Checked Bool :=
  if core < 32 then do return (← Checked.shiftRight b.participants core) &&& 1 == 1
  else .ok false

/-- The requests of the participants among the attached cores, from number `index` on. -/
def waiting (b : Barrier) : (index : Nat) → List Request → Checked (List Request)
  | _, [] => .ok []
  | index, r :: rs => do
    let takesPart ← b.isParticipant index
    let rest ← b.waiting (index + 1) rs
    return if takesPart then r :: rest else rest

/-- Do all of the given requests ask, and for one id? -/
def agree : List Request → Bool
  | [] => false
  | first :: rest => first.enable && rest.all (fun r => r.enable && r.id == first.id)

/-- Is every participant among `n` attached cores? -/
def attached (b : Barrier) (n : Nat) : Checked Bool :=
  if 32 ≤ n then .ok true
  else do return (← Checked.shiftRight b.participants n) == 0

/-- Does the edge release the participants? A release is never followed by another one at once. -/
def releases (b : Barrier) (requests : List Request) : Checked Bool := do
  let arrived := agree (← b.waiting 0 requests)
  let attached ← b.attached requests.length
  return !b.fire && arrived && attached

/-- The clock edge, with the requests of the ending cycle. -/
def latch (b : Barrier) (requests : List Request) : Checked Barrier := do
  return { b with fire := ← b.releases requests }

/-- The events of an edge, given the barrier after it. -/
def latchEvents (b : Barrier) : List Event :=
  if b.fire then [.barrierReleased b.participants] else []

/-- The ready line of a core. -/
def ready (b : Barrier) (core : Nat) : Checked Bool :=
  if b.fire then b.isParticipant core else .ok false

def reset (b : Barrier) : Barrier := { b with fire := false }

end Barrier

end Sequencer
