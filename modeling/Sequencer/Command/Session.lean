import Sequencer.Command.Basic
import Sequencer.Command.Failure
import Sequencer.Expectation.Json
import Sequencer.Isa.Disassembly
import Sequencer.Scenario.Reader
import Sequencer.Scenario.Report

/-! Commands at work: they read and write files, print, log, and may fail. -/

namespace Sequencer

/-- What a command has printed and logged. -/
structure Output where
  printed : String := ""
  log : List LogEntry := []
  deriving DecidableEq, Repr

/-- A command at work on files in `m`. What was printed before a failure stays printed. -/
abbrev Session (m : Type → Type) := ExceptT Failure (StateT Output m)

namespace Session

variable {m : Type → Type} [Monad m] {α : Type}

def print (text : String) : Session m Unit :=
  modify (fun o => { o with printed := o.printed ++ text })

def logEntries (entries : List LogEntry) : Session m Unit :=
  modify (fun o => { o with log := o.log ++ entries })

def checked (c : Checked α) : Session m α :=
  match c with
  | .ok a => return a
  | .error f => throw (.fault f)

def attempt {ε : Type} (failure : ε → Failure) (a : Attempt ε α) : Session m α := do
  match ← checked a.run with
  | .ok a => return a
  | .error e => throw (failure e)

/-- Read a file that holds a JSON value. -/
def document (fs : Storage m) (path : String) (missing : FileError → Failure)
    (bad : DocumentError → Failure) (reader : Json.Reader α) : Session m α := do
  match ← fs.read path with
  | .error .isADirectory => throw (bad .unreadable)
  | .error e => throw (missing e)
  | .ok octets =>
    match Json.Reader.parse reader octets with
    | .ok a => return a
    | .error e => throw (bad (.refused e))

/-- Read a program laid out as given. -/
def program (fs : Storage m) (layout : Layout) (path : String) : Session m (List Word) := do
  match ← fs.read path with
  | .error e => throw (.programFile path e)
  | .ok octets =>
    match String.fromUTF8? ⟨octets.toArray⟩ with
    | none => throw (.programFile path .notText)
    | some source =>
      match Program.parse layout.widths.instr source with
      | .ok words => return words
      | .error e => throw (.program path e)

/-! ### Scenarios -/

/-- Read a scenario. Its programs are named as seen from its own directory. -/
def scenario (fs : Storage m) (path : String) : Session m Scenario := do
  let s ← document fs path (.scenarioFile path) (.scenario path) Scenario.reader
  let base := (Path.parent? path).getD "."
  return { s with programs := s.programs.map (Path.join base) }

/-- Load one program. -/
def load (fs : Storage m) (cluster : Cluster) (path : String) (index : Nat) :
    Session m Cluster := do
  let core ← checked (cluster.core index)
  let words ← program fs core.layout path
  let core ← attempt (.programTooLong path) (.accepted (core.loadProgram words))
  return cluster.setCore index core

/-- The cluster of a scenario with its programs loaded. -/
def build (fs : Storage m) (s : Scenario) : Session m Cluster := do
  let cluster ← attempt .cluster s.cluster
  s.programs.zipIdx.foldlM (fun cluster (path, index) => load fs cluster path index) cluster

/-- Entries of a log up to a level of detail. -/
def detailed (verbose : Nat) (entries : List LogEntry) : List LogEntry :=
  entries.filter (fun e => decide (e.event.level.detail ≤ verbose))

/-- Run a scenario. -/
def simulate (fs : Storage m) (verbose : Nat) (maxCycles : Option Nat) (s : Scenario) :
    Session m Report := do
  let cluster ← build fs s
  let report ← checked (s.run (maxCycles.getD s.maxCycles) cluster)
  if verbose ≠ 0 then logEntries (detailed verbose (← checked (s.log cluster report)))
  return report

/-! ### Commands -/

def run (fs : Storage m) (verbose : Nat) (path : String) (maxCycles : Option Nat) :
    Session m Unit := do
  let report ← simulate fs verbose maxCycles (← scenario fs path)
  print (report.value.pretty 2 ++ "\n")

/-- The file for what differs from an expectation, beside it. -/
def diffPath (path : String) : String :=
  Path.sibling path (Path.stem (Path.fileName path) ++ "_diff.json")

/-- Write what differs, or remove what differed before. -/
def writeDiff (fs : Storage m) (path : String) (diff : Option Expectation) : Session m Unit := do
  match diff with
  | none => fs.remove path
  | some diff =>
    match ← fs.write path (diff.value.pretty 2).toUTF8.toList with
    | .ok () => return
    | .error e => throw (.diffFile path e)

def test (fs : Storage m) (verbose : Nat) (path expectedPath : String) (maxCycles : Option Nat) :
    Session m Unit := do
  let s ← scenario fs path
  let expected ← document fs expectedPath (.expectedFile expectedPath) .expected Expectation.reader
  let report ← simulate fs verbose maxCycles s
  let diff := expected.compare report.cores
  writeDiff fs (diffPath expectedPath) diff
  match diff with
  | none => print s!"Passed after {report.cycles} cycles\n"
  | some diff => throw (.differs diff.named expectedPath)

/-- A word with its address and its text. -/
def disassembled (layout : Layout) (word : Word) (address : Nat) : Checked String := do
  let op ← layout.decode word
  return Text.padLeft 4 ' ' (toString address) ++ ": " ++
    Program.wordText layout.widths.instr word ++ "  " ++ op.text ++ "\n"

def disasm (fs : Storage m) (path : String) (configPath : Option String) : Session m Unit := do
  let config ← match configPath with
    | some configPath =>
      document fs configPath (.configFile configPath) .configDocument Config.reader
    | none => pure {}
  let layout ← attempt .config config.layout
  let words ← program fs layout path
  for (word, address) in words.zipIdx do
    print (← checked (disassembled layout word address))

end Session

/-- An example of an expectation. -/
def exampleText : String := Expectation.sample.value.pretty 4

/-- Carry out a command. -/
def Invocation.session {m : Type → Type} [Monad m] (i : Invocation) (fs : Storage m) :
    Session m Unit :=
  match i.command with
  | .run scenario maxCycles => Session.run fs i.verbose scenario maxCycles
  | .test scenario expected maxCycles => Session.test fs i.verbose scenario expected maxCycles
  | .disasm program config => Session.disasm fs program config
  | .showExample => Session.print (exampleText ++ "\n")

/-- Carry out a command: what it printed and logged, and why it failed, if it did. -/
def Invocation.execute {m : Type → Type} [Monad m] (i : Invocation) (fs : Storage m) :
    m (Output × Option Failure) := do
  let (result, output) ← StateT.run (ExceptT.run (i.session fs)) {}
  return (output, match result with | .ok () => none | .error e => some e)

end Sequencer
