import Sequencer.Json.Reader
import Sequencer.Lookup.Table

/-! Look-up tables as JSON: an object with the number of lines, the required mask and the
    entries. -/

namespace Sequencer.LookupTable

open Json.Reader

/-- A table under construction. -/
structure Draft where
  nMeas : Option Nat := none
  requiredMask : Option Nat := none
  entries : Option (List Nat) := none

def reader : Json.Reader LookupTable := do
  let draft ← record
    [member "n_meas" Draft.nMeas (fun d n => { d with nMeas := some n }) (nat 32),
     member "required_mask" Draft.requiredMask (fun d n => { d with requiredMask := some n })
       (nat 32),
     member "table" Draft.entries (fun d l => { d with entries := some l }) (list (nat 32))]
    ({} : Draft)
  return {
    nMeas := ← required draft.nMeas
    requiredMask := (← required draft.requiredMask).toUInt32
    entries := ((← required draft.entries).map Nat.toUInt32).toArray }

end Sequencer.LookupTable
