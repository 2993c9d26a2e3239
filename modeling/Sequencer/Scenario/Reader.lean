import Sequencer.Config.Reader
import Sequencer.Lookup.Reader
import Sequencer.Scenario

/-! Scenarios as JSON. Only the programs are required; the table and the barrier may be `null`. -/

namespace Sequencer

open Json Json.Reader

def MeasEvent.reader : Reader MeasEvent := do
  let draft ← record [numberMember 64 "cycle", numberMember 32 "meas", numberMember 32 "valid"] []
  return {
    cycle := ← required (draft.lookup "cycle")
    lines := {
      meas := (← required (draft.lookup "meas")).toUInt32
      valid := (← required (draft.lookup "valid")).toUInt32 } }

namespace Scenario

/-- A scenario under construction. -/
structure Draft where
  config : Option Config := none
  programs : Option (List String) := none
  table : Option (Option LookupTable) := none
  barrier : Option (Option Nat) := none
  measEvents : Option (List MeasEvent) := none
  maxCycles : Option Nat := none

def members : List (Member Draft) :=
  [member "config" Draft.config (fun d c => { d with config := some c }) Config.reader,
   member "programs" Draft.programs (fun d p => { d with programs := some p }) (list string),
   member "lut" Draft.table (fun d t => { d with table := some t }) (optional LookupTable.reader),
   member "barrier" Draft.barrier (fun d b => { d with barrier := some b }) (optional (nat 32)),
   member "meas_events" Draft.measEvents (fun d es => { d with measEvents := some es })
     (list MeasEvent.reader),
   member "max_cycles" Draft.maxCycles (fun d n => { d with maxCycles := some n }) (nat 64)]

def reader : Reader Scenario := do
  let draft ← record members {}
  let start : Scenario := { programs := ← required draft.programs }
  return { start with
    config := draft.config.getD start.config
    table := draft.table.getD none
    barrier := (draft.barrier.getD none).map Nat.toUInt32
    measEvents := draft.measEvents.getD start.measEvents
    maxCycles := draft.maxCycles.getD start.maxCycles }

end Scenario

end Sequencer
