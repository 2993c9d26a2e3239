import Sequencer.Core.Basic

/-! Expected end states and how they differ from actual ones.

    An expectation names, core by core, only what is to be checked. Its difference from what
    happened has the same form: it names what failed, with the actual values. -/

namespace Sequencer

/-- What is expected of one core. -/
structure ExpectedCore where
  /-- Values by register number, each number once and in increasing order. -/
  registers : List (UInt8 × UInt32) := []
  qclk : Option UInt32 := none
  pc : Option UInt16 := none
  done : Option Bool := none
  deriving DecidableEq, Repr, Inhabited

/-- What is expected of each core. -/
structure Expectation where
  cores : List ExpectedCore := []
  deriving DecidableEq, Repr, Inhabited

/-- A register of a core; one that it does not have reads as zero. -/
def Snapshot.register (s : Snapshot) (r : UInt8) : UInt32 := s.registers.getD r.toNat 0

namespace ExpectedCore

def isEmpty (e : ExpectedCore) : Bool :=
  e.registers.isEmpty && e.qclk.isNone && e.pc.isNone && e.done.isNone

/-- The actual value, if another one was expected. -/
def failed {α : Type} [DecidableEq α] (expected : Option α) (actual : α) : Option α :=
  match expected with
  | some e => if e = actual then none else some actual
  | none => none

/-- What failed, with the actual values. -/
def diff (e : ExpectedCore) (actual : Snapshot) : ExpectedCore :=
  { registers := e.registers.filterMap (fun (r, value) =>
      (failed (some value) (actual.register r)).map (fun v => (r, v)))
    qclk := failed e.qclk actual.qclk
    pc := failed e.pc actual.pc
    done := failed e.done actual.done }

end ExpectedCore

namespace Expectation

/-- The differences core by core. What is expected of a core that does not exist fails unchanged. -/
def coreDiffs : List ExpectedCore → List Snapshot → List ExpectedCore
  | [], _ => []
  | e :: es, [] => e :: coreDiffs es []
  | e :: es, s :: ss => e.diff s :: coreDiffs es ss

/-- What failed, with the actual values; nothing when every expectation holds. -/
def compare (e : Expectation) (actual : List Snapshot) : Option Expectation :=
  let cores := coreDiffs e.cores actual
  if cores.all ExpectedCore.isEmpty then none else some { cores := cores }

/-- The numbers of the cores of which something is expected. -/
def named (e : Expectation) : List Nat :=
  (e.cores.zipIdx.filter (fun (c, _) => !c.isEmpty)).map (fun (_, index) => index)

end Expectation

end Sequencer
