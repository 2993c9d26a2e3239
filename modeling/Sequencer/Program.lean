import Sequencer.Text.Blank
import Sequencer.Text.Quoted
import Sequencer.Word

/-! Programs as text: one word in hexadecimal a line.

    A word may be marked `0x` and may be divided by underscores. Everything behind `#` is a comment,
    and a line without a word is skipped. A program is refused for the first line that is no word,
    or whose word is wider than an instruction. -/

namespace Sequencer

/-- Why digits are no number of at most 128 bits. -/
inductive DigitsError where
  | empty
  | invalidDigit
  | tooLarge
  deriving DecidableEq, Repr

def DigitsError.message : DigitsError → String
  | empty => "cannot parse integer from empty string"
  | invalidDigit => "invalid digit found in string"
  | tooLarge => "number too large to fit in target type"

/-- Why a line is refused. The word is what stands on it. -/
inductive LineError where
  | digits (error : DigitsError) (word : List Char)
  | tooWide (word : List Char) (instr : Nat)
  deriving DecidableEq, Repr

def LineError.message : LineError → String
  | digits error word => error.message ++ ": " ++ Text.quoted word
  | tooWide word instr => String.ofList word ++ s!" is wider than {instr} bits"

/-- Why a program is refused. Lines count from one. -/
structure ProgramError where
  line : Nat
  error : LineError
  deriving DecidableEq, Repr

def ProgramError.message (e : ProgramError) : String := s!"line {e.line}: " ++ e.error.message

namespace Program

/-- The lines of a text. -/
def lines (source : List Char) : List (List Char) := source.splitOn '\n'

/-- What stands on a line before its comment, without blanks at the ends. -/
def content (line : List Char) : List Char := Text.trim (line.takeWhile (· ≠ '#'))

/-- A word without its marks `0x`. -/
def unmarked : List Char → List Char
  | '0' :: 'x' :: cs => unmarked cs
  | cs => cs

/-- Append hexadecimal digits to a number. -/
def appendDigits : Nat → List Char → Except DigitsError Nat
  | n, [] => .ok n
  | n, c :: cs =>
    match Text.hexValue? c with
    | none => .error .invalidDigit
    | some d => if n * 16 + d < 1 <<< 128 then appendDigits (n * 16 + d) cs else .error .tooLarge

/-- The number that hexadecimal digits spell, with a plus sign or without. -/
def digitsValue : List Char → Except DigitsError Nat
  | [] => .error .empty
  | ['+'] => .error .invalidDigit
  | '+' :: cs => appendDigits 0 cs
  | cs => appendDigits 0 cs

/-- The word that stands on a line of a program for instructions of `instr` bits. -/
def wordOf (instr : Nat) (word : List Char) : Except LineError Word :=
  match digitsValue ((unmarked word).filter (· ≠ '_')) with
  | .error e => .error (.digits e word)
  | .ok n =>
    if instr < 128 ∧ 1 <<< instr ≤ n then .error (.tooWide word instr)
    else .ok (BitVec.ofNat 128 n)

/-- The word on a line, if there is one. -/
def lineWord (instr : Nat) (line : List Char) : Except LineError (Option Word) :=
  match content line with
  | [] => .ok none
  | c :: cs => (wordOf instr (c :: cs)).map some

/-- The words of lines, the first of which has number `number`. -/
def wordsFrom (instr : Nat) : (number : Nat) → List (List Char) → Except ProgramError (List Word)
  | _, [] => .ok []
  | number, line :: rest =>
    match lineWord instr line with
    | .error error => .error { line := number, error }
    | .ok word => (wordsFrom instr (number + 1) rest).map (word.toList ++ ·)

/-- A word with all the digits that an instruction of `instr` bits has. -/
def wordText (instr : Nat) (word : Word) : String :=
  Text.padLeft ((instr + 3) / 4) '0' (Text.hexDigits word.toNat)

/-- The words of a program for instructions of `instr` bits. -/
def parse (instr : Nat) (source : String) : Except ProgramError (List Word) :=
  wordsFrom instr 1 (lines source.toList)

end Program

end Sequencer
