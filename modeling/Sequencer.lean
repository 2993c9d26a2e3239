import Sequencer.Barrier
import Sequencer.Cluster.Basic
import Sequencer.Cluster.Run
import Sequencer.Cluster.Step
import Sequencer.Command.Arguments
import Sequencer.Command.Basic
import Sequencer.Command.Failure
import Sequencer.Command.Session
import Sequencer.Config
import Sequencer.Config.Reader
import Sequencer.Core.Alu
import Sequencer.Core.Basic
import Sequencer.Core.Control
import Sequencer.Core.Events
import Sequencer.Core.Lines
import Sequencer.Core.ProgramCounter
import Sequencer.Core.ProgramMemory
import Sequencer.Core.PulseRegisters
import Sequencer.Core.RegisterFile
import Sequencer.Core.Run
import Sequencer.Core.Step
import Sequencer.Core.Timebase
import Sequencer.Event
import Sequencer.Expectation
import Sequencer.Expectation.Json
import Sequencer.Fault
import Sequencer.Isa.Bundle
import Sequencer.Isa.Disassembly
import Sequencer.Isa.Encoding
import Sequencer.Isa.Layout
import Sequencer.Isa.Opcode
import Sequencer.Isa.Operation
import Sequencer.Json.Reader
import Sequencer.Json.Value
import Sequencer.Lookup.Client
import Sequencer.Lookup.Distributor
import Sequencer.Lookup.Reader
import Sequencer.Lookup.Round
import Sequencer.Lookup.Table
import Sequencer.Main
import Sequencer.Path
import Sequencer.Program
import Sequencer.Proofs.Checked
import Sequencer.Proofs.Field
import Sequencer.Proofs.Layout
import Sequencer.Scenario
import Sequencer.Scenario.Reader
import Sequencer.Scenario.Report
import Sequencer.Storage
import Sequencer.Text.Blank
import Sequencer.Text.Invisible
import Sequencer.Text.Quoted
import Sequencer.Text.Radix
import Sequencer.Word
import Sequencer.Proofs.Decoding
import Sequencer.Proofs.RoundTrip
import Sequencer.Proofs.Core.Stages
import Sequencer.Proofs.Core.Tick
import Sequencer.Proofs.Core.Sound
import Sequencer.Proofs.Core.Interpreter
import Sequencer.Proofs.Core.Completion
import Sequencer.Proofs.Core.Refinement
import Sequencer.Proofs.Cluster.Tick
import Sequencer.Proofs.Cluster.Sound
import Sequencer.Proofs.Cluster.Feedback
import Sequencer.Proofs.Cluster.Rendezvous
import Sequencer.Proofs.Lookup.Schedule
import Sequencer.Proofs.Reencoding
import Sequencer.Proofs.Core.Start
import Sequencer.Proofs.Core.PulseOutputs
import Sequencer.Proofs.Core.Timebase
import Sequencer.Proofs.Cluster.Timebase
import Sequencer.Proofs.Core.Restart
import Sequencer.Proofs.Cluster.Restart
import Sequencer.Proofs.Core.Faultless
import Sequencer.Proofs.Cluster.Faultless
import Sequencer.Proofs.Cluster.Isolation
import Sequencer.Proofs.Cluster.Observation
import Sequencer.Proofs.Core.Coherence
import Sequencer.Proofs.Core.Stall
import Sequencer.Proofs.Core.Terminal
import Sequencer.Proofs.Core.Trigger
import Sequencer.Proofs.Scenario.Build
import Sequencer.Proofs.Scenario.Report
import Sequencer.Proofs.Core.Alu
import Sequencer.Proofs.Core.Increment
import Sequencer.Proofs.Cluster.Finish
import Sequencer.Proofs.Scenario.Events
import Sequencer.Proofs.Extent
import Sequencer.Proofs.Acceptance
import Sequencer.Proofs.Cluster.Settling
import Sequencer.Proofs.Disassembly
import Sequencer.Proofs.Command.Session
import Sequencer.Proofs.Expectation
import Sequencer.Proofs.Program.Numeral
import Sequencer.Proofs.Program.Lines
import Sequencer.Proofs.Program.RoundTrip
import Sequencer.Proofs.Lens
import Sequencer.Proofs.Core.Fetch
