import Sequencer.Core.Control
import Sequencer.Isa.Disassembly

/-! What a run reports while it happens.

    Events are data: the edge and the settling of a core, the barrier, the look-up table and the run
    of a scenario each say which events they raise, and `Event.text` is one line of the log. -/

namespace Sequencer

inductive Event where
  | transition (cycle : Nat) (source target : State)
  | retired (cycle : Nat) (pc : UInt16) (op : Operation)
  | fprocReady (cycle : Nat) (data : UInt32)
  | syncReleased (cycle : Nat) (id : UInt16)
  | pcLoad (cycle : Nat) (addr : UInt16)
  | phaseReset (cycle : Nat)
  | strobe (cycle : Nat) (time : UInt32) (data : Bundle UInt32)
  | pulseWritten (cycle : Nat)
  | done (cycle : Nat)
  | barrierReleased (participants : UInt32)
  | roundComplete (addr : UInt32)
  | allDone (cycles : Nat)
  | limitReached (cycles : Nat)
  deriving DecidableEq, Repr

/-- How much an event matters. -/
inductive Level where
  | trace
  | debug
  | info
  deriving DecidableEq, Repr

def Level.text : Level → String
  | trace => "TRACE"
  | debug => "DEBUG"
  | info => "INFO"

/-- The detail a log needs to show a level. -/
def Level.detail : Level → Nat
  | info => 1
  | debug => 2
  | trace => 3

namespace Event

def level : Event → Level
  | transition .. => .trace
  | phaseReset .. | strobe .. | done .. | allDone .. | limitReached .. => .info
  | _ => .debug

/-- What happened, with its values. -/
def message : Event → String
  | transition cycle source target =>
    s!"state transition cycle={cycle} from={source.text} to={target.text}"
  | retired cycle pc op => s!"retired cycle={cycle} pc={pc.toNat} instr={op.text}"
  | fprocReady cycle data => s!"fproc ready cycle={cycle} data={data.toNat}"
  | syncReleased cycle id => s!"sync released cycle={cycle} id={id.toNat}"
  | pcLoad cycle addr => s!"pc load cycle={cycle} addr={addr.toNat}"
  | phaseReset cycle => s!"phase reset cycle={cycle}"
  | strobe cycle time data =>
    s!"pulse strobe cycle={cycle} time={time.toNat} phase={data.phase.toNat} " ++
      s!"freq={data.freq.toNat} amp={data.amp.toNat} env={data.envWord.toNat} " ++
      s!"cfg={data.cfg.toNat}"
  | pulseWritten cycle => s!"pulse registers written cycle={cycle}"
  | done cycle => s!"done cycle={cycle}"
  | barrierReleased participants => s!"sync barrier released participants={participants.toNat}"
  | roundComplete addr => s!"lut round complete addr={addr.toNat}"
  | allDone cycles => s!"all cores done cycles={cycles}"
  | limitReached cycles => s!"cycle limit reached cycles={cycles}"

def text (e : Event) : String := s!"{e.level.text} {e.message}"

end Event

/-- An event with the core whose edge raised it, when it was raised inside a cluster's edge. -/
structure LogEntry where
  core : Option Nat := none
  event : Event
  deriving DecidableEq, Repr

def LogEntry.text (e : LogEntry) : String :=
  match e.core with
  | some index => s!"core\x7bindex={index}\x7d " ++ e.event.text
  | none => e.event.text

end Sequencer
