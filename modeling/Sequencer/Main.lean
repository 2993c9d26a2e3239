import Sequencer.Command.Arguments
import Sequencer.Command.Session

/-! The command line program. -/

namespace Sequencer

/-- What a system error means for a file. -/
def FileError.ofSystem : IO.Error → FileError
  | .noFileOrDirectory .. => .notFound
  | .inappropriateType .. => .isADirectory
  | e => .other (toString e)

/-- Run an action on files and keep its error. -/
def attemptFile {α : Type} (action : IO α) : IO (Except FileError α) := do
  try return .ok (← action)
  catch e => return .error (.ofSystem e)

/-- The files of the system. -/
def systemFiles : Storage IO where
  read path := attemptFile do return (← IO.FS.readBinFile path).toList
  write path content := attemptFile (IO.FS.writeBinFile path ⟨content.toArray⟩)
  remove path := do
    let _ ← attemptFile (IO.FS.removeFile path)

def Json.ReadError.message : Json.ReadError → String
  | malformed => "the text is not valid JSON"
  | mismatch => "a value has the wrong type, is out of range, missing or given twice"
  | truncated => "the text ends too early"

def Cause.message : Cause → String
  | text message => message
  | file error => error.message
  | document .unreadable => FileError.isADirectory.message
  | document (.refused error) => error.message

namespace Arguments

def usage : String :=
  "Run programs on a model of the pulse-sequencing processor\n\n" ++
  "  run SCENARIO [-m CYCLES]             run a scenario and print its report as JSON\n" ++
  "  test SCENARIO EXPECTED [-m CYCLES]   compare the final core states with an expectation\n" ++
  "  disasm PROGRAM [--config CONFIG]     decode every word of a hex program\n" ++
  "  example                              print an example expected-state file\n" ++
  "  help                                 print this text\n\n" ++
  "  -v, --verbose                        log more, up to three times\n" ++
  "  -h, --help, -V, --version\n"

def UsageError.message : UsageError → String
  | help | nothing => usage
  | version => "0.1.0\n"
  | missingCommand => "a command is required\n"
  | missingOperand => "a required argument is missing\n"
  | unknownArgument => "unexpected argument\n"
  | unknownCommand => "unrecognized command\n"
  | noValue => "a value is required\n"
  | badValue => "a value is no number of at most 64 bits\n"
  | repeated => "an option is given more than once\n"
  | unwantedValue => "a value is given to an option that takes none\n"

end Arguments

/-- Print what a command printed, logged and failed for. -/
def present (output : Output) (failure : Option Failure) : IO UInt32 := do
  for entry in output.log do
    IO.eprintln entry.text
  IO.print output.printed
  match failure with
  | none => return 0
  | some failure =>
    for cause in failure.causes do
      IO.eprintln cause.message
    return 1

end Sequencer

open Sequencer

def main (args : List String) : IO UInt32 := do
  match Arguments.parse args with
  | .ok invocation =>
    let (output, failure) ← invocation.execute systemFiles
    present output failure
  | .error .help =>
    IO.print Arguments.UsageError.help.message
    return 0
  | .error .version =>
    IO.print Arguments.UsageError.version.message
    return 0
  | .error e =>
    IO.eprint e.message
    return 2
