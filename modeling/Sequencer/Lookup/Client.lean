import Sequencer.Core.Lines
import Sequencer.Fault
import Sequencer.Lookup.Table

/-! The answers to one core's feedback requests.

    A request with id zero waits for the core's own measurement line, any other id for the table.
    The answer is the core's bit, and is ready for the one cycle in which it is there. -/

namespace Sequencer

inductive ClientState where
  | idle
  | waitMeas
  | waitLut
  deriving DecidableEq, Repr, Inhabited

def ClientState.text : ClientState → String
  | idle => "IDLE"
  | waitMeas => "WAIT_MEAS"
  | waitLut => "WAIT_LUT"

structure Client where
  core : Nat
  state : ClientState := .idle
  /-- Id captured when the client left idle. -/
  id : UInt16 := 0
  deriving DecidableEq, Repr, Inhabited

namespace Client

/-- The clock edge, with the request of the ending cycle and whether it was answered. -/
def latch (c : Client) (request : Request) (answered : Bool) : Client :=
  match c.state with
  | .idle =>
    if request.enable then
      { c with id := request.id, state := if request.id = 0 then .waitMeas else .waitLut }
    else c
  | .waitMeas | .waitLut => if answered then { c with state := .idle } else c

/-- The bit of a word that belongs to the client's core. -/
def bit (c : Client) (w : UInt32) : Checked UInt32 := do
  return (← Checked.shiftRight w c.core) &&& 1

/-- The response for the lines of a cycle and the table entry presented in it. -/
def respond (c : Client) (m : Meas) (entry : Option UInt32) : Checked Response := do
  match c.state, entry with
  | .waitMeas, _ =>
    if (← c.bit m.valid) = 1 then return { ready := true, data := ← c.bit m.meas } else return {}
  | .waitLut, some entry => return { ready := true, data := ← c.bit entry }
  | _, _ => return {}

def reset (c : Client) : Client := { c with state := .idle, id := 0 }

end Client

end Sequencer
