import Sequencer.Config
import Sequencer.Json.Reader

/-! Configurations as JSON. Every member may be left out and then takes its default. -/

namespace Sequencer

open Json Json.Reader

/-- A record of numbers under construction: what has been read so far, by name. -/
abbrev NumberDraft := List (String × Nat)

/-- A member that is a number of at most `bits` bits. -/
def numberMember (bits : Nat) (name : String) : Member NumberDraft :=
  member name (List.lookup name) (fun draft n => (name, n) :: draft) (nat bits)

namespace Widths

def reader : Reader Widths := do
  let draft ← record
    (["instr", "reg_addr", "instr_addr", "request_id"] ++ Bundle.keys.toList |>.map
      (numberMember 32)) []
  let width (name : String) (default : Nat) : Nat := (draft.lookup name).getD default
  let start : Widths := {}
  return {
    instr := width "instr" start.instr
    regAddr := width "reg_addr" start.regAddr
    instrAddr := width "instr_addr" start.instrAddr
    requestId := width "request_id" start.requestId
    pulse := Bundle.keys.zipWith width start.pulse }

end Widths

def UnknownPolicy.reader : Reader UnknownPolicy :=
  choice ([stallInDecode, fallThrough].map (fun p => (p.name, p)))

namespace Config

/-- A configuration under construction. -/
structure Draft where
  widths : Option Widths := none
  memReadLatency : Option Nat := none
  unknownOpcode : Option UnknownPolicy := none

def reader : Reader Config := do
  let draft ← record
    [member "widths" Draft.widths (fun d w => { d with widths := some w }) Widths.reader,
     member "mem_read_latency" Draft.memReadLatency
       (fun d n => { d with memReadLatency := some n }) (nat 32),
     member "unknown_opcode" Draft.unknownOpcode
       (fun d p => { d with unknownOpcode := some p }) UnknownPolicy.reader] ({} : Draft)
  let start : Config := {}
  return {
    widths := draft.widths.getD start.widths
    memReadLatency := (draft.memReadLatency.map Nat.toUInt32).getD start.memReadLatency
    unknownOpcode := draft.unknownOpcode.getD start.unknownOpcode }

end Config

end Sequencer
