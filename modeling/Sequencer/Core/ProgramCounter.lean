import Sequencer.Fault

/-! The program counter.

    Its output is the load value on a cycle with a load and the stored value otherwise. On the edge
    an increment stores the output plus one, else a load stores the load value; both wrap at the
    address width. -/

namespace Sequencer

structure ProgramCounter where
  value : UInt16
  mask : UInt16
  deriving DecidableEq, Repr, Inhabited

namespace ProgramCounter

/-- A counter of `width` address bits, at zero. The mask is computed in signed 32-bit words and cut
    to sixteen bits, so 31 bits leave the range of the difference and 32 that of the shift. -/
def new (width : Nat) : Checked ProgramCounter :=
  if 32 ≤ width then .error .wideShift
  else if 31 ≤ width then .error .overflow
  else .ok { value := 0, mask := ((1 <<< width) - 1).toUInt16 }

/-- The address presented to program memory. -/
def out (pc : ProgramCounter) (load : Option UInt16) : UInt16 :=
  load.getD pc.value &&& pc.mask

/-- The clock edge. -/
def latch (pc : ProgramCounter) (inc : Bool) (load : Option UInt16) : ProgramCounter :=
  if inc then { pc with value := (pc.out load + 1) &&& pc.mask }
  else
    match load with
    | some addr => { pc with value := addr &&& pc.mask }
    | none => pc

def reset (pc : ProgramCounter) : ProgramCounter := { pc with value := 0 }

end ProgramCounter

end Sequencer
