import Sequencer.Isa.Layout

/-! Design-time parameters of a core. -/

namespace Sequencer

/-- What the control unit does with an unassigned opcode class. -/
inductive UnknownPolicy where
  /-- Stay in decode: the core never advances. -/
  | stallInDecode
  /-- Treat the word as doing nothing. -/
  | fallThrough
  deriving DecidableEq, Repr, Inhabited

/-- The policy as configurations spell it. -/
def UnknownPolicy.name : UnknownPolicy → String
  | stallInDecode => "stall_in_decode"
  | fallThrough => "fall_through"

structure Config where
  widths : Widths := {}
  /-- Cycles that a fetch idles before the instruction register loads. -/
  memReadLatency : UInt32 := 1
  unknownOpcode : UnknownPolicy := .stallInDecode
  deriving DecidableEq, Repr, Inhabited

/-- Why a configuration describes no core. -/
inductive ConfigError where
  | memReadLatency
  | layout (error : LayoutError)
  deriving DecidableEq, Repr

def ConfigError.message : ConfigError → String
  | memReadLatency => "memory read latency must be at least one cycle"
  | layout error => s!"invalid instruction layout: {error.message}"

/-- The layout of a valid configuration. -/
def Config.layout (c : Config) : Attempt ConfigError Layout :=
  if c.memReadLatency = 0 then throw .memReadLatency
  else (Layout.ofWidths c.widths).adapt .layout

end Sequencer
