import Sequencer.Fault
import Sequencer.Text.Radix

/-! The measurement look-up table and the lines that address it. -/

namespace Sequencer

/-- Measurement lines during one cycle; bit `i` of each word belongs to line `i`. -/
structure Meas where
  meas : UInt32 := 0
  valid : UInt32 := 0
  deriving DecidableEq, Repr, Inhabited

/-- Lines of several sources on one bus. -/
def Meas.merge (a b : Meas) : Meas := ⟨a.meas ||| b.meas, a.valid ||| b.valid⟩

/-- Most measurement lines that a table can have. -/
def maxMeasLines : Nat := 16

structure LookupTable where
  nMeas : Nat
  /-- Lines that must all be valid before the table is consulted. -/
  requiredMask : UInt32
  /-- `2 ^ nMeas` entries; bit `i` of an entry is the output for core `i`. -/
  entries : Array UInt32
  deriving DecidableEq, Repr, Inhabited

/-- Why a table cannot serve a number of cores. -/
inductive TableError where
  | tooManyLines (nMeas : Nat)
  | tooFewLines (nMeas nCores : Nat)
  | requiredMaskOutOfRange (mask : UInt32) (nMeas : Nat)
  | size (expected actual : Nat)
  deriving DecidableEq, Repr

def TableError.message : TableError → String
  | tooManyLines nMeas => s!"{nMeas} measurement lines is too many"
  | tooFewLines nMeas nCores =>
    s!"{nCores} cores need a measurement line each but only {nMeas} exist"
  | requiredMaskOutOfRange mask nMeas =>
    s!"required mask {Text.binary 1 mask.toNat} names lines beyond the {nMeas} that exist"
  | size expected actual => s!"LUT table has {actual} entries, expected {expected}"

namespace LookupTable

/-- Every line required and every entry zero. Beyond the most lines there can be, the mask and the
    table stay as they are there. -/
def zero (nMeas : Nat) : Checked LookupTable := do
  let lines := min nMeas maxMeasLines
  let mask ← Checked.mask 32 lines
  let size ← Checked.power 64 lines
  return { nMeas, requiredMask := mask.toUInt32, entries := Array.replicate size 0 }

/-- Can the table serve `nCores` cores? -/
def validate (t : LookupTable) (nCores : Nat) : Attempt TableError Unit := do
  if maxMeasLines < t.nMeas then throw (.tooManyLines t.nMeas)
  if t.nMeas < nCores then throw (.tooFewLines t.nMeas nCores)
  let lines ← Checked.mask 32 t.nMeas
  if t.requiredMask &&& ~~~lines.toUInt32 ≠ 0 then
    throw (.requiredMaskOutOfRange t.requiredMask t.nMeas)
  let size ← Checked.power 64 t.nMeas
  if t.entries.size ≠ size then throw (.size size t.entries.size)

end LookupTable

end Sequencer
