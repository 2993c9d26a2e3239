import Sequencer.Fault
import Sequencer.Isa.Bundle

/-! The registers that the waveform generator sees.

    A parameter keeps its value until it is written and is cut to its width. The strobe and the
    phase reset are high for one cycle. -/

namespace Sequencer

/-- Values presented to the pulse registers for one edge; `none` leaves a parameter alone. -/
abbrev PulseWrites := Bundle (Option UInt32)

/-- Is any parameter written? -/
def PulseWrites.any (w : PulseWrites) : Bool := w.toList.any Option.isSome

structure PulseOutputs where
  data : Bundle UInt32 := .fill 0
  /-- High for the one cycle after a triggered pulse commits. -/
  cstrobe : Bool := false
  /-- High for the one cycle after a phase reset is decoded. -/
  phaseReset : Bool := false
  deriving DecidableEq, Repr, Inhabited

structure PulseRegisters where
  out : PulseOutputs := {}
  widths : Bundle Nat
  deriving DecidableEq, Repr, Inhabited

namespace PulseRegisters

/-- The lowest `width` bits of a data word; all of it from 32 on, where the shift has no result. -/
def truncate (width : Nat) (value : UInt32) : Checked UInt32 :=
  if 32 ≤ width then .ok value
  else do return value &&& (← Checked.mask 32 width).toUInt32

/-- The value of one parameter after an edge. -/
def store (width : Nat) (old : UInt32) : Option UInt32 → Checked UInt32
  | some value => truncate width value
  | none => .ok old

/-- The clock edge. -/
def latch (r : PulseRegisters) (writes : PulseWrites) (cstrobe phaseReset : Bool) :
    Checked PulseRegisters := do
  let data ← (((r.widths.map store).zipWith (· ·) r.out.data).zipWith (· ·) writes).sequence
  return { r with out := { data, cstrobe, phaseReset } }

def reset (r : PulseRegisters) : PulseRegisters := { r with out := {} }

end PulseRegisters

end Sequencer
