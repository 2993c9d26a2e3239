import Sequencer.Text.Radix

/-! Reading JSON by type.

    A reader takes the value it expects from the front of a text and stops at the first problem, so
    a text with several problems is refused for the leftmost one. Three kinds of problem are told
    apart: the text is no JSON, it is JSON of another shape, or it ends too early. The text is a
    list of octets; only the strings that are kept have to be UTF-8. -/

namespace Sequencer.Json

/-- Why a text was refused. -/
inductive ReadError where
  /-- The text is no JSON. -/
  | malformed
  /-- A value has another type, is out of range, is missing or is given twice. -/
  | mismatch
  /-- The text ends too early. -/
  | truncated
  deriving DecidableEq, Repr

/-- A reader of values `α` from the front of a text. -/
abbrev Reader := StateT (List UInt8) (Except ReadError)

namespace Reader

/-! ### Characters and tokens -/

/-- The next octet, as the character with that code. -/
def peek : Reader (Option Char) := do
  return (← get).head?.map Char.ofUInt8

/-- Drop one octet. -/
def skip : Reader Unit := modify List.tail

/-- Take one octet. -/
def next : Reader (Option Char) := do
  let c ← peek
  skip
  return c

/-- Take one octet of a string, which cannot end the text. -/
def nextInString : Reader Char := do
  match ← next with
  | some c => return c
  | none => throw .truncated

def isBlank (b : UInt8) : Bool := b == 0x20 || b == 0x0a || b == 0x09 || b == 0x0d

/-- The next octet behind blanks, left in place. -/
def token : Reader (Option Char) := do
  modify (List.dropWhile isBlank)
  peek

/-- Take the rest of a word such as `null`. -/
def word : List Char → Reader Unit
  | [] => return
  | c :: cs => do
    match ← next with
    | none => throw .truncated
    | some d => if d = c then word cs else throw .malformed

/-- Octets left, a bound for every loop below. -/
def remaining : Reader Nat := do
  return (← get).length

/-! ### Numbers -/

/-- A number: a whole one of at most 64 bits, or any other. -/
inductive Number where
  | natural (n : Nat)
  | other
  deriving DecidableEq, Repr

def isDigit (b : UInt8) : Bool := 0x30 ≤ b && b ≤ 0x39

/-- Take the digits at the front. -/
def digits : Reader (List Nat) := do
  let text ← get
  set (text.dropWhile isDigit)
  return (text.takeWhile isDigit).map (fun b => b.toNat - 0x30)

/-- Append digits to a significand as long as it keeps to 64 bits; the count of digits used. -/
def accumulate (significand : Nat) : List Nat → Nat × Nat
  | [] => (significand, 0)
  | d :: ds =>
    if significand * 10 + d < 0x10000000000000000 then
      let (s, n) := accumulate (significand * 10 + d) ds
      (s, n + 1)
    else (significand, 0)

/-- The nearest number with 53 significant bits; a tie goes to the even one. -/
def round53 (n : Nat) : Nat :=
  let shift := n.log2 - 52
  let q := n / (1 <<< shift)
  let r := n % (1 <<< shift)
  let up := (1 <<< shift) < 2 * r ∨ ((1 <<< shift) = 2 * r ∧ 0 < shift ∧ q % 2 = 1)
  (if up then q + 1 else q) * (1 <<< shift)

/-- Is `significand * 10 ^ exponent`, computed with 53 significant bits, beyond the largest number
    that an 11-bit exponent allows? -/
def tooLarge (significand : Nat) (exponent : Int) : Bool :=
  significand ≠ 0 && 0 ≤ exponent &&
    (308 < exponent ||
      (1 <<< 1024) - (1 <<< 970) ≤ round53 significand * round53 (Nat.pow 10 exponent.toNat))

/-- End a number that is not whole. -/
def inexact (significand : Nat) (exponent : Int) : Reader Number :=
  if tooLarge significand exponent then throw .malformed else return .other

/-- The exponent of a number, from its letter on. -/
def exponentPart (significand : Nat) (start : Int) : Reader Number := do
  skip
  let negative := (← peek) = some '-'
  if negative || (← peek) = some '+' then skip
  match ← peek with
  | none => throw .truncated
  | some _ => pure ()
  let ds ← digits
  if ds.isEmpty then throw .malformed
  let e : Nat := ds.foldl (fun n d => n * 10 + d) 0
  inexact significand (if negative then start - e else start + e)

/-- The fraction of a number, from its point on. -/
def fractionPart (significand : Nat) (start : Int) : Reader Number := do
  skip
  let ds ← digits
  if ds.isEmpty then
    match ← peek with
    | none => throw .truncated
    | some _ => throw .malformed
  let (significand, used) := accumulate significand ds
  match ← peek with
  | some 'e' | some 'E' => exponentPart significand (start - used)
  | _ => inexact significand (start - used)

/-- A number behind its sign. -/
def number (positive : Bool) : Reader Number := do
  match ← peek with
  | none => throw .truncated
  | some _ => pure ()
  let ds ← digits
  match ds with
  | [] => throw .malformed
  | 0 :: _ :: _ => throw .malformed
  | _ => pure ()
  let (significand, used) := accumulate 0 ds
  let start : Int := ds.length - used
  match ← peek with
  | some '.' => fractionPart significand start
  | some 'e' | some 'E' => exponentPart significand start
  | _ =>
    if start ≠ 0 then inexact significand start
    else if positive then return .natural significand
    else return .other

/-! ### Strings -/

/-- Four hexadecimal digits. -/
def hexEscape : Reader Nat := do
  let cs := [← nextInString, ← nextInString, ← nextInString, ← nextInString]
  match cs.mapM Text.hexValue? with
  | some ds => return ds.foldl (fun n d => n * 16 + d) 0
  | none => throw .malformed

/-- Take one given character of a string. -/
def expectInString (c : Char) : Reader Unit := do
  match ← peek with
  | none => throw .truncated
  | some d => if d = c then skip else throw .malformed

/-- The code point of a `\u` escape; surrogates have to come in pairs. -/
def unicodeEscape : Reader Nat := do
  let n ← hexEscape
  if 0xdc00 ≤ n && n ≤ 0xdfff then throw .malformed
  if 0xd800 ≤ n && n ≤ 0xdbff then
    expectInString '\\'
    expectInString 'u'
    let low ← hexEscape
    if low < 0xdc00 || 0xdfff < low then throw .malformed
    return (n - 0xd800) * 0x400 + (low - 0xdc00) + 0x10000
  return n

/-- The character of a one-letter escape. -/
def simpleEscape? : Char → Option Char
  | '"' => some '"'
  | '\\' => some '\\'
  | '/' => some '/'
  | 'b' => some '\x08'
  | 'f' => some '\x0c'
  | 'n' => some '\n'
  | 'r' => some '\r'
  | 't' => some '\t'
  | _ => none

/-- The octets of an escape behind its backslash. -/
def escape : Reader (List UInt8) := do
  match ← nextInString with
  | 'u' => return String.utf8EncodeChar (Char.ofNat (← unicodeEscape))
  | c =>
    match simpleEscape? c with
    | some d => return String.utf8EncodeChar d
    | none => throw .malformed

/-- The octets of a string behind its opening quote, in reverse. -/
def stringOctets : (fuel : Nat) → List UInt8 → Reader (List UInt8)
  | 0, _ => throw .truncated
  | fuel + 1, read => do
    match ← nextInString with
    | '"' => return read
    | '\\' => do stringOctets fuel ((← escape).reverse ++ read)
    | c => if c < ' ' then throw .malformed else stringOctets fuel (c.toUInt8 :: read)

/-- A string behind its opening quote. -/
def stringRest : Reader String := do
  let octets ← stringOctets ((← remaining) + 1) []
  match String.fromUTF8? ⟨octets.reverse.toArray⟩ with
  | some s => return s
  | none => throw .malformed

/-! ### Values of the wrong type -/

/-- Refuse the value at the front, which is not of the expected type. A scalar is read first, and
    may be no JSON itself. -/
def wrongType {α : Type} : Reader α := do
  match ← peek with
  | some 'n' => skip; word "ull".toList
  | some 't' => skip; word "rue".toList
  | some 'f' => skip; word "alse".toList
  | some '-' => skip; discard (number false)
  | some '"' => skip; discard stringRest
  | some '[' | some '{' => pure ()
  | some c => if c.isDigit then discard (number true) else throw .malformed
  | none => throw .malformed
  throw .mismatch

/-- The first character of a value. -/
def valueToken : Reader Char := do
  match ← token with
  | some c => return c
  | none => throw .truncated

/-! ### Scalars -/

/-- The number at the front as a natural number below `bound`. -/
def natBelow (bound : Nat) (n : Number) : Reader Nat :=
  match n with
  | .natural n => if n < bound then return n else throw .mismatch
  | .other => throw .mismatch

/-- A natural number of at most `bits` bits. -/
def nat (bits : Nat) : Reader Nat := do
  let c ← valueToken
  if c = '-' then
    skip
    natBelow (1 <<< bits) (← number false)
  else if c.isDigit then natBelow (1 <<< bits) (← number true)
  else wrongType

def bool : Reader Bool := do
  match ← valueToken with
  | 't' => skip; word "rue".toList; return true
  | 'f' => skip; word "alse".toList; return false
  | _ => wrongType

def string : Reader String := do
  match ← valueToken with
  | '"' => skip; stringRest
  | _ => wrongType

/-- `null`, or a value. -/
def optional {α : Type} (value : Reader α) : Reader (Option α) := do
  match ← token with
  | some 'n' => skip; word "ull".toList; return none
  | _ => return some (← value)

/-! ### Values that are not kept -/

/-- A list or an object that is open. -/
inductive Frame where
  | list
  | object
  deriving DecidableEq, Repr

def Frame.close : Frame → Char
  | list => ']'
  | object => '}'

/-- What comes next while values are skipped. -/
inductive Want where
  /-- A value. -/
  | value
  /-- The first member of the innermost frame, or its end. -/
  | first
  /-- A comma and a further member, or the end of the innermost frame. -/
  | further
  deriving DecidableEq, Repr

/-- Skip a string behind its opening quote. Its escapes are checked, its octets are not. -/
def skipString : (fuel : Nat) → Reader Unit
  | 0 => throw .truncated
  | fuel + 1 => do
    match ← nextInString with
    | '"' => return
    | '\\' => do
      match ← nextInString with
      | 'u' => discard hexEscape
      | c => if (simpleEscape? c).isNone then throw .malformed
      skipString fuel
    | c => if c < ' ' then throw .malformed else skipString fuel

/-- Skip at least one digit. -/
def skipDigits : Reader Unit := do
  if (← digits).isEmpty then throw .malformed

/-- Skip the exponent of a number, if there is one. -/
def skipExponent : Reader Unit := do
  match ← peek with
  | some 'e' | some 'E' =>
    skip
    if (← peek) = some '+' || (← peek) = some '-' then skip
    skipDigits
  | _ => return

/-- Skip a number behind its sign. It may not end early in any way. -/
def skipNumber : Reader Unit := do
  match ← digits with
  | [] => throw .malformed
  | 0 :: _ :: _ => throw .malformed
  | _ => pure ()
  if (← peek) = some '.' then
    skip
    skipDigits
  skipExponent

/-- Skip a key and its colon, if the frame has keys. -/
def skipKey (fuel : Nat) : Frame → Reader Unit
  | .list => return
  | .object => do
    match ← token with
    | some '"' => skip; skipString fuel
    | some _ => throw .malformed
    | none => throw .truncated
    match ← token with
    | some ':' => skip
    | some _ => throw .malformed
    | none => throw .truncated

/-- Skip a value and what is left of the frames around it. -/
def skipFrom : (fuel : Nat) → Want → List Frame → Reader Unit
  | 0, _, _ => throw .truncated
  | _ + 1, .further, [] => return
  | fuel + 1, .further, frame :: frames => do
    match ← token with
    | none => throw .truncated
    | some ',' => do
      skip
      skipKey fuel frame
      skipFrom fuel .value (frame :: frames)
    | some c =>
      if c = frame.close then
        skip
        skipFrom fuel .further frames
      else throw .malformed
  | _ + 1, .first, [] => return
  | fuel + 1, .first, frame :: frames => do
    match ← token with
    | none => throw .truncated
    | some c =>
      if c = frame.close then
        skip
        skipFrom fuel .further frames
      else
        skipKey fuel frame
        skipFrom fuel .value (frame :: frames)
  | fuel + 1, .value, frames => do
    match ← valueToken with
    | '[' => skip; skipFrom fuel .first (.list :: frames)
    | '{' => skip; skipFrom fuel .first (.object :: frames)
    | 'n' => skip; word "ull".toList; skipFrom fuel .further frames
    | 't' => skip; word "rue".toList; skipFrom fuel .further frames
    | 'f' => skip; word "alse".toList; skipFrom fuel .further frames
    | '"' => skip; skipString fuel; skipFrom fuel .further frames
    | '-' => skip; skipNumber; skipFrom fuel .further frames
    | c =>
      if c.isDigit then
        skipNumber
        skipFrom fuel .further frames
      else throw .malformed

/-- Skip a value that is not kept. Every two steps take at least one octet. -/
def skipValue : Reader Unit := do
  skipFrom (2 * (← remaining) + 2) .value []

/-! ### Lists -/

/-- Is there a further element? Leaves the closing bracket in place. -/
def hasElement (first : Bool) : Reader Bool := do
  match ← token with
  | none => throw .truncated
  | some ']' => return false
  | some c =>
    if first then return true
    else if c ≠ ',' then throw .malformed
    else
      skip
      match ← token with
      | none => throw .truncated
      | some ']' => throw .malformed
      | some _ => return true

/-- Take the closing bracket of a list. -/
def endList : Reader Unit := do
  match ← token with
  | none => throw .truncated
  | some ']' => skip
  | some _ => throw .malformed

/-- The elements of an open list, in reverse. -/
def elements {α : Type} (element : Reader α) : (fuel : Nat) → List α → Reader (List α)
  | 0, _ => throw .truncated
  | fuel + 1, read => do
    if ← hasElement read.isEmpty then elements element fuel ((← element) :: read) else return read

/-- A list of values. -/
def list {α : Type} (element : Reader α) : Reader (List α) := do
  match ← valueToken with
  | '[' =>
    skip
    let read ← elements element ((← remaining) + 1) []
    endList
    return read.reverse
  | _ => wrongType

/-! ### Objects -/

/-- Is there a further key? Leaves its opening quote, or the closing brace, in place. -/
def hasKey (first : Bool) : Reader Bool := do
  match ← token with
  | none => throw .truncated
  | some '}' => return false
  | some c =>
    if first then
      if c = '"' then return true else throw .malformed
    else if c ≠ ',' then throw .malformed
    else
      skip
      match ← token with
      | none => throw .truncated
      | some '"' => return true
      | some _ => throw .malformed

/-- Take the colon behind a key. -/
def colon : Reader Unit := do
  match ← token with
  | none => throw .truncated
  | some ':' => skip
  | some _ => throw .malformed

/-- The entries of an open object with numeric keys, in reverse, and its closing brace. -/
def numericEntries {α : Type} (bits : Nat) (value : Reader α) :
    (fuel : Nat) → List (Nat × α) → Reader (List (Nat × α))
  | 0, _ => throw .truncated
  | fuel + 1, read => do
    if ← hasKey read.isEmpty then
      skip
      match ← peek with
      | some c => if c ≠ '-' && !c.isDigit then throw .malformed
      | none => throw .malformed
      let key ← nat bits
      match ← peek with
      | some '"' => skip
      | _ => throw .malformed
      colon
      numericEntries bits value fuel ((key, ← value) :: read)
    else
      skip
      return read

/-- An object whose keys are numbers of at most `bits` bits, as the list of its entries. -/
def numericMap {α : Type} (bits : Nat) (value : Reader α) : Reader (List (Nat × α)) := do
  match ← valueToken with
  | '{' =>
    skip
    return (← numericEntries bits value ((← remaining) + 1) []).reverse
  | _ => wrongType

/-- One of several words: a string, or an object with the word as its only key and `null` as
    value. -/
def choice {α : Type} (words : List (String × α)) : Reader α := do
  match ← token with
  | none => throw .truncated
  | some '"' => pick (← string)
  | some '{' =>
    skip
    if (← valueToken) ≠ '"' then throw .malformed
    let a ← pick (← string)
    colon
    match ← valueToken with
    | 'n' => skip; word "ull".toList
    | _ => wrongType
    match ← token with
    | none => throw .truncated
    | some '}' => skip
    | some _ => throw .malformed
    return a
  | some _ => throw .malformed
where
  pick (key : String) : Reader α :=
    match words.lookup key with
    | some a => return a
    | none => throw .mismatch

/-! ### Records -/

/-- A member of a record of which `σ` holds what has been read. -/
structure Member (σ : Type) where
  name : String
  present : σ → Bool
  read : σ → Reader σ

/-- A member kept in an optional field. -/
def member {σ α : Type} (name : String) (get : σ → Option α) (set : σ → α → σ)
    (value : Reader α) : Member σ where
  name := name
  present s := (get s).isSome
  read s := do return set s (← value)

/-- Read the members of an open object and its closing brace. A known key may come once; the value
    of an unknown one is skipped. -/
def members {σ : Type} (ms : List (Member σ)) : (fuel : Nat) → (first : Bool) → σ → Reader σ
  | 0, _, _ => throw .truncated
  | fuel + 1, first, s => do
    if ← hasKey first then
      skip
      let key ← stringRest
      match ms.find? (fun m => m.name == key) with
      | some m =>
        if m.present s then throw .mismatch
        colon
        members ms fuel false (← m.read s)
      | none =>
        colon
        skipValue
        members ms fuel false s
    else
      skip
      return s

/-- Read members by position, as many as an open list has. -/
def positional {σ : Type} : List (Member σ) → (first : Bool) → σ → Reader σ
  | [], _, s => return s
  | m :: ms, first, s => do
    if ← hasElement first then positional ms false (← m.read s) else return s

/-- A record: an object with the members by name, or a list with them by position. -/
def record {σ : Type} (ms : List (Member σ)) (start : σ) : Reader σ := do
  match ← valueToken with
  | '{' =>
    skip
    members ms ((← remaining) + 1) true start
  | '[' =>
    skip
    let s ← positional ms true start
    endList
    return s
  | _ => wrongType

/-- The value of a member that has to be there. -/
def required {α : Type} : Option α → Reader α
  | some a => return a
  | none => throw .mismatch

/-- Read a whole text. -/
def parse {α : Type} (r : Reader α) (text : List UInt8) : Except ReadError α :=
  match r.run text with
  | .error e => .error e
  | .ok (a, rest) => if (rest.dropWhile isBlank).isEmpty then .ok a else .error .malformed

end Reader

end Sequencer.Json
