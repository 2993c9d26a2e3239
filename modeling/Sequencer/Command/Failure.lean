import Sequencer.Cluster.Basic
import Sequencer.Json.Reader
import Sequencer.Program
import Sequencer.Storage

/-! Why a command fails, as a chain of causes. -/

namespace Sequencer

/-- Why a file holds no value of the kind that is wanted. -/
inductive DocumentError where
  /-- It is no file that can be read. -/
  | unreadable
  | refused (error : Json.ReadError)
  deriving DecidableEq, Repr

inductive Failure where
  | scenarioFile (path : String) (error : FileError)
  | scenario (path : String) (error : DocumentError)
  | cluster (error : ClusterError)
  | programFile (path : String) (error : FileError)
  | program (path : String) (error : ProgramError)
  | programTooLong (path : String) (error : ProgramTooLong)
  | expectedFile (path : String) (error : FileError)
  | expected (error : DocumentError)
  | diffFile (path : String) (error : FileError)
  | differs (cores : List Nat) (path : String)
  | configFile (path : String) (error : FileError)
  | configDocument (error : DocumentError)
  | config (error : ConfigError)
  /-- The model itself broke down. -/
  | fault (fault : Fault)
  deriving DecidableEq, Repr

/-- One link of the chain. -/
inductive Cause where
  | text (message : String)
  | file (error : FileError)
  | document (error : DocumentError)
  deriving DecidableEq, Repr

/-- A configuration error and what is behind it. -/
def ConfigError.causes (e : ConfigError) : List Cause :=
  .text e.message ::
    match e with
    | .layout error => [.text error.message]
    | .memReadLatency => []

/-- An error of a cluster and what is behind it. -/
def ClusterError.causes (e : ClusterError) : List Cause :=
  .text e.message ::
    match e with
    | .config error => error.causes
    | _ => []

namespace Failure

/-- Numbers in brackets. -/
def listText (ns : List Nat) : String := "[" ++ String.intercalate ", " (ns.map toString) ++ "]"

/-- What failed and, behind it, why. -/
def causes : Failure → List Cause
  | scenarioFile path error => [.text s!"Failed to open scenario {path}", .file error]
  | scenario path error => [.text s!"Failed to parse scenario {path}", .document error]
  | cluster error => .text "Invalid system configuration" :: error.causes
  | programFile path error => [.text s!"Failed to read program {path}", .file error]
  | program path error => [.text s!"Invalid program {path}", .text error.message]
  | programTooLong path error => [.text s!"Failed to load {path}", .text error.message]
  | expectedFile path error => [.text s!"Failed to open expected state {path}", .file error]
  | expected error => [.text "Failed to read JSON, improperly formatted.", .document error]
  | diffFile path error => [.text s!"Failed to write {path}", .file error]
  | differs cores path => [.text (s!"Cores {listText cores} differ from {path}")]
  | configFile path error => [.text s!"Failed to open config {path}", .file error]
  | configDocument error => [.text "Failed to parse processor configuration", .document error]
  | config error => .text "Invalid processor configuration" :: error.causes
  | fault _ => [.text "the model broke down"]

end Failure

end Sequencer
