import Sequencer.Expectation
import Sequencer.Json.Reader
import Sequencer.Json.Value

/-! Expectations as JSON. Data words are strings of eight hexadecimal digits, and registers are an
    object by number. Only what is named is written. -/

namespace Sequencer

open Json Json.Reader

namespace ExpectedCore

/-- A data word of eight hexadecimal digits. -/
def dataReader : Reader UInt32 := do
  let digits := (← string).toList
  match digits.mapM Text.hexValue? with
  | some ds =>
    if ds.length = 8 then return (ds.foldl (fun n d => n * 16 + d) 0).toUInt32 else throw .mismatch
  | none => throw .mismatch

/-- Set a register, keeping the numbers in order. -/
def insertRegister (r : UInt8) (value : UInt32) : List (UInt8 × UInt32) → List (UInt8 × UInt32)
  | [] => [(r, value)]
  | (s, v) :: rest =>
    if r < s then (r, value) :: (s, v) :: rest
    else if r = s then (r, value) :: rest
    else (s, v) :: insertRegister r value rest

/-- Values by register number; of two for one register the last counts. -/
def registersReader : Reader (List (UInt8 × UInt32)) := do
  return (← numericMap 8 dataReader).foldl (fun rs (r, v) => insertRegister r.toUInt8 v rs) []

/-- What is expected of a core, under construction. -/
structure Draft where
  registers : Option (List (UInt8 × UInt32)) := none
  qclk : Option (Option UInt32) := none
  pc : Option (Option Nat) := none
  done : Option (Option Bool) := none

def reader : Reader ExpectedCore := do
  let draft ← record
    [member "registers" Draft.registers (fun d r => { d with registers := some r }) registersReader,
     member "qclk" Draft.qclk (fun d q => { d with qclk := some q }) (optional dataReader),
     member "pc" Draft.pc (fun d p => { d with pc := some p }) (optional (nat 16)),
     member "done" Draft.done (fun d b => { d with done := some b }) (optional bool)]
    ({} : Draft)
  return {
    registers := draft.registers.getD []
    qclk := draft.qclk.getD none
    pc := (draft.pc.getD none).map Nat.toUInt16
    done := draft.done.getD none }

def dataValue (v : UInt32) : Value := .string (Text.padLeft 8 '0' (Text.hexDigits v.toNat))

/-- A member that is written only when it is there. -/
def optionalMember {α : Type} (name : String) (value : α → Value) (a : Option α) :
    List (String × Value) :=
  (a.map (fun a => (name, value a))).toList

def value (e : ExpectedCore) : Value :=
  .object <|
    (if e.registers.isEmpty then []
     else
      [("registers", .object (e.registers.map (fun (r, v) => (toString r.toNat, dataValue v))))]) ++
    optionalMember "qclk" dataValue e.qclk ++
    optionalMember "pc" (fun pc => .nat pc.toNat) e.pc ++
    optionalMember "done" .bool e.done

end ExpectedCore

namespace Expectation

def reader : Reader Expectation := do
  let cores ← record [member "cores" id (fun _ cores => some cores) (list ExpectedCore.reader)] none
  return { cores := ← required cores }

def value (e : Expectation) : Value := .object [("cores", .list (e.cores.map ExpectedCore.value))]

/-- An expectation that shows how one is written. -/
def sample : Expectation :=
  { cores := [
      { registers := [(1, 0x76), (9, 0xffffffff)]
        qclk := some 0x40
        done := some true }] }

end Expectation

end Sequencer
