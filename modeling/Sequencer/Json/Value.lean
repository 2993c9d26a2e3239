/-! JSON values and their indented text: some blanks a level, members in the order given, and
    nothing between the brackets of an empty list or object. -/

namespace Sequencer.Json

inductive Value where
  | bool (b : Bool)
  | nat (n : Nat)
  | string (s : String)
  | list (items : List Value)
  | object (members : List (String × Value))
  deriving Inhabited

namespace Value

/-- A character inside a string. -/
def escapeChar (c : Char) : String :=
  match c with
  | '"' => "\\\""
  | '\\' => "\\\\"
  | '\n' => "\\n"
  | '\r' => "\\r"
  | '\t' => "\\t"
  | '\x08' => "\\b"
  | '\x0c' => "\\f"
  | c =>
    if c < ' ' then
      "\\u00" ++ String.ofList [Nat.digitChar (c.toNat / 16), Nat.digitChar (c.toNat % 16)]
    else String.singleton c

def quote (s : String) : String := "\"" ++ String.join (s.toList.map escapeChar) ++ "\""

/-- Lines between brackets, the inner ones indented. -/
def block (margin indent opening closing : String) (lines : List String) : String :=
  if lines.isEmpty then opening ++ closing
  else
    opening ++ "\n" ++ String.intercalate ",\n" (lines.map (margin ++ indent ++ ·)) ++ "\n" ++
      margin ++ closing

mutual

/-- The text of a value on a line with a margin. -/
def render (indent margin : String) : Value → String
  | bool b => if b then "true" else "false"
  | nat n => toString n
  | string s => quote s
  | list items => block margin indent "[" "]" (renderItems indent (margin ++ indent) items)
  | object members =>
    block margin indent "\x7b" "\x7d" (renderMembers indent (margin ++ indent) members)

def renderItems (indent margin : String) : List Value → List String
  | [] => []
  | v :: vs => render indent margin v :: renderItems indent margin vs

def renderMembers (indent margin : String) : List (String × Value) → List String
  | [] => []
  | (key, v) :: vs =>
    (quote key ++ ": " ++ render indent margin v) :: renderMembers indent margin vs

end

/-- The text of a value, each level indented by so many blanks. -/
def pretty (blanks : Nat) (v : Value) : String :=
  render (String.ofList (List.replicate blanks ' ')) "" v

end Value

end Sequencer.Json
