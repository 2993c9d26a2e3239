/-! What can be asked of the command line. -/

namespace Sequencer

inductive Command where
  /-- Run a scenario and print its report. -/
  | run (scenario : String) (maxCycles : Option Nat)
  /-- Run a scenario and compare how it ends with an expectation. -/
  | test (scenario expected : String) (maxCycles : Option Nat)
  /-- Print a program as text, laid out as a configuration says. -/
  | disasm (program : String) (config : Option String)
  /-- Print an example of an expectation. -/
  | showExample
  deriving DecidableEq, Repr

/-- A command with the level of detail of its log. -/
structure Invocation where
  command : Command
  verbose : Nat := 0
  deriving DecidableEq, Repr

end Sequencer
