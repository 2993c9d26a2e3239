import Sequencer.Command.Basic

/-! The command line: a command, its operands and its options.

    Arguments are read from left to right. An option that takes a value, and an operand, is settled
    only when the next one comes or the arguments end, so that a word nobody knows is reported
    before a bad value in front of it. -/

namespace Sequencer.Arguments

/-- Why arguments are no command. Two of them ask for a text instead. -/
inductive UsageError where
  | help
  | version
  /-- There are no arguments. -/
  | nothing
  | missingCommand
  | missingOperand
  | unknownArgument
  | unknownCommand
  /-- A value is missing or empty. -/
  | noValue
  /-- A value is no number. -/
  | badValue
  /-- An option is given twice. -/
  | repeated
  /-- A value is given to an option that takes none. -/
  | unwantedValue
  deriving DecidableEq, Repr

/-! ### Values -/

/-- Append decimal digits to a number of at most 64 bits. -/
def appendDecimal : Nat → List Char → Option Nat
  | n, [] => some n
  | n, c :: cs =>
    let next := n * 10 + (c.toNat - '0'.toNat)
    if c.isDigit && next < 1 <<< 64 then appendDecimal next cs else none

/-- A decimal number of at most 64 bits, with a plus sign or without. -/
def number? (text : String) : Option Nat :=
  match text.toList with
  | [] | ['+'] => none
  | '+' :: cs => appendDecimal 0 cs
  | cs => appendDecimal 0 cs

/-- What the value of an option has to be. -/
inductive Kind where
  | number
  | path
  deriving DecidableEq, Repr

def Kind.check : Kind → String → Except UsageError Unit
  | number, text => if (number? text).isSome then .ok () else .error .badValue
  | path, text => if text.isEmpty then .error .noValue else .ok ()

/-! ### What each command takes -/

/-- An option with a value. -/
structure ValueOption where
  long : String
  short : Option Char
  kind : Kind
  deriving DecidableEq, Repr

inductive Verb where
  | run
  | test
  | disasm
  | showExample
  deriving DecidableEq, Repr

namespace Verb

def all : List Verb := [run, test, disasm, showExample]

def name : Verb → String
  | run => "run"
  | test => "test"
  | disasm => "disasm"
  | .showExample => "example"

def ofName? (name : String) : Option Verb := all.find? (fun v => v.name == name)

/-- The number of operands. All of them are required. -/
def operands : Verb → Nat
  | run | disasm => 1
  | test => 2
  | .showExample => 0

def option : Verb → Option ValueOption
  | run | test => some ⟨"max-cycles", some 'm', .number⟩
  | disasm => some ⟨"config", none, .path⟩
  | .showExample => none

end Verb

/-! ### Reading -/

/-- What has been seen but not settled. -/
inductive Pending where
  | nothing
  | option (value : Option String)
  | operand (value : String)
  deriving DecidableEq, Repr

/-- What has been read, of a command or, without a verb, in front of one. -/
structure Progress where
  verb : Option Verb := none
  verbose : Nat := 0
  option : Option String := none
  operands : List String := []
  pending : Pending := .nothing
  /-- Have the options ended? -/
  plain : Bool := false
  deriving DecidableEq, Repr

namespace Progress

def valueOption (p : Progress) : Option ValueOption := p.verb.bind Verb.option

/-- Store the value of the option. -/
def store (p : Progress) (kind : Kind) (value : String) : Except UsageError Progress := do
  if p.option.isSome then throw .repeated
  kind.check value
  return { p with option := some value }

/-- Settle what is pending. -/
def settle (p : Progress) : Except UsageError Progress :=
  match p.pending, p.valueOption with
  | .option (some value), some o => store { p with pending := .nothing } o.kind value
  | .option _, _ => throw .noValue
  | .operand value, _ =>
    if value.isEmpty then throw .noValue
    else return { p with pending := .nothing, operands := p.operands ++ [value] }
  | .nothing, _ => return p

/-- Count the option for more detail, at most 255 times. -/
def moreDetail (p : Progress) : Except UsageError Progress := do
  let p ← p.settle
  return { p with verbose := min 255 (p.verbose + 1) }

/-- Stop for a text that is asked for. -/
def ask (p : Progress) (text : UsageError) : Except UsageError Progress := do
  let _ ← p.settle
  throw text

/-- The option with a value is given, its value attached or not. -/
def startOption (p : Progress) (o : ValueOption) (value : Option String) :
    Except UsageError Progress := do
  let p ← p.settle
  match value with
  | some value => p.store o.kind value
  | none => return { p with pending := .option none }

/-- An operand. -/
def operand (p : Progress) (value : String) : Except UsageError Progress := do
  let seen := p.operands.length + (match p.pending with | .operand _ => 1 | _ => 0)
  if (p.verb.map Verb.operands).getD 0 ≤ seen then throw .unknownArgument
  let p ← p.settle
  return { p with pending := .operand value }

/-- An option behind two dashes. -/
def longOption (p : Progress) (name : String) (value : Option String) :
    Except UsageError Progress :=
  let flag (act : Except UsageError Progress) : Except UsageError Progress :=
    if value.isSome then throw .unwantedValue else act
  if name = "verbose" then flag p.moreDetail
  else if name = "help" then flag (p.ask .help)
  else if name = "version" && p.verb.isNone then flag (p.ask .version)
  else
    match p.valueOption with
    | some o => if o.long = name then p.startOption o value else throw .unknownArgument
    | none => throw .unknownArgument

/-- Options behind one dash, a character each. The rest of the text is the value of one that takes a
    value, and may be divided from it by an equals sign. -/
def shortOptions (p : Progress) : List Char → Except UsageError Progress
  | [] => return p
  | 'v' :: cs => do (← p.moreDetail).shortOptions cs
  | 'h' :: _ => p.ask .help
  | c :: cs =>
    if c = 'V' && p.verb.isNone then p.ask .version
    else
      match p.valueOption with
      | some o =>
        if o.short = some c then
          p.startOption o <|
            match cs with
            | [] => none
            | '=' :: rest => some (String.ofList rest)
            | cs => some (String.ofList cs)
        else throw .unknownArgument
      | none => throw .unknownArgument

/-- A long option's name and, behind an equals sign, its value. -/
def splitLong (text : List Char) : String × Option String :=
  let name := String.ofList (text.takeWhile (· ≠ '='))
  match text.dropWhile (· ≠ '=') with
  | [] => (name, none)
  | _ :: value => (name, some (String.ofList value))

/-- Is the argument an option, or the mark that ends them? -/
def isOption (arg : String) : Bool :=
  match arg.toList with
  | '-' :: _ :: _ => true
  | _ => false

/-- One argument. -/
def step (p : Progress) (arg : String) : Except UsageError Progress :=
  if p.plain then p.operand arg
  else
    match arg.toList with
    | ['-', '-'] => return { p with plain := true }
    | '-' :: '-' :: text =>
      let (name, value) := splitLong text
      p.longOption name value
    | '-' :: c :: cs => p.shortOptions (c :: cs)
    | _ =>
      match p.pending with
      | .option none => return { p with pending := .option (some arg) }
      | _ => p.operand arg

end Progress

/-- The command that operands and an option make. -/
def command (verb : Verb) (operands : List String) (option : Option String) :
    Except UsageError Command :=
  match verb, operands with
  | .run, [scenario] => return .run scenario (option.bind number?)
  | .test, [scenario, expected] => return .test scenario expected (option.bind number?)
  | .disasm, [program] => return .disasm program option
  | .showExample, [] => return .showExample
  | _, _ => throw .missingOperand

/-- Read the arguments of a command. The detail asked for behind the command counts, if there is
    any. -/
def readCommand (verb : Verb) (verbose : Nat) (args : List String) :
    Except UsageError Invocation := do
  let read ← args.foldlM Progress.step { verb := some verb }
  let p ← read.settle
  return {
    command := ← command verb p.operands p.option
    verbose := if p.verbose = 0 then verbose else p.verbose }

/-- The help on a command; no command has further ones below it. -/
def readHelp : List String → UsageError
  | [] => .help
  | [topic] => if (Verb.ofName? topic).isSome || topic == "help" then .help else .unknownCommand
  | _ => .unknownCommand

/-- Read options in front of a command, and then the command. -/
def readFrom (p : Progress) : List String → Except UsageError Invocation
  | [] => throw (if p.verbose = 0 then .nothing else .missingCommand)
  | arg :: args => do
    let verb := Verb.ofName? arg
    if p.plain then
      throw (if verb.isSome || arg == "help" then .unknownArgument else .unknownCommand)
    else if Progress.isOption arg then readFrom (← p.step arg) args
    else if arg == "help" then throw (readHelp args)
    else
      match verb with
      | some verb => readCommand verb p.verbose args
      | none => throw .unknownCommand

/-- Read the arguments behind the program's name. -/
def parse (args : List String) : Except UsageError Invocation := readFrom {} args

end Sequencer.Arguments
