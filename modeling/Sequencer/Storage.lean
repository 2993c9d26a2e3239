import Sequencer.Path

/-! Files: how they are reached, and a tree of files in memory. -/

namespace Sequencer

/-- Why a file cannot be used. -/
inductive FileError where
  | notFound
  | notADirectory
  | isADirectory
  /-- The file is no UTF-8 text. -/
  | notText
  /-- No file can have such a name. -/
  | invalidName
  | nameTooLong
  /-- Anything else that the system says. -/
  | other (message : String)
  deriving DecidableEq, Repr

def FileError.message : FileError → String
  | notFound => "no such file or directory"
  | notADirectory => "not a directory"
  | isADirectory => "is a directory"
  | notText => "the file is not valid UTF-8"
  | invalidName => "the name holds a null character"
  | nameTooLong => "file name too long"
  | other message => message

/-- Access to files from a monad. -/
structure Storage (m : Type → Type) where
  read : String → m (Except FileError (List UInt8))
  write : String → List UInt8 → m (Except FileError Unit)
  /-- Remove a file if that is possible. -/
  remove : String → m Unit

/-- A tree of files. A directory exists as long as there is a file below it; the root always
    does. The tree is part of a larger one, of which nothing is known but that its directories lie
    above the root. -/
structure Files where
  /-- Contents by the components of a path from the root. -/
  entries : List (List String × List UInt8) := []
  deriving DecidableEq, Repr

/-- Where a path leads. -/
inductive Place where
  /-- Into the tree, by components from its root. -/
  | inside (components : List String)
  /-- To a directory above the root. -/
  | above
  deriving DecidableEq, Repr

namespace Files

/-- Most octets of a component. -/
def maxComponent : Nat := 255

/-- Most octets of a path. -/
def maxPath : Nat := 4095

def get? (files : Files) (place : List String) : Option (List UInt8) := files.entries.lookup place

/-- Is there a file below this place? -/
def isDirectory (files : Files) (place : List String) : Bool :=
  place.isEmpty ||
    files.entries.any (fun (key, _) => place.length < key.length && key.take place.length == place)

/-- One step from a place inside. The last step of a path may lead to what does not exist. -/
def step (files : Files) (place : List String) (c : String) (last : Bool) :
    Except FileError Place :=
  if (files.get? place).isSome then .error .notADirectory
  else if Path.isIdle c then .ok (.inside place)
  else if c == ".." then .ok (if place.isEmpty then .above else .inside place.dropLast)
  else if maxComponent < c.utf8ByteSize then .error .nameTooLong
  else
    let next := place ++ [c]
    if last || (files.get? next).isSome || files.isDirectory next then .ok (.inside next)
    else .error .notFound

/-- One step from a directory above the root. Nothing is found there. -/
def stepAbove (c : String) : Except FileError Place :=
  if Path.isIdle c || c == ".." then .ok .above
  else if maxComponent < c.utf8ByteSize then .error .nameTooLong
  else .error .notFound

/-- Follow components from a place. -/
def follow (files : Files) : Place → List String → Except FileError Place
  | place, [] => .ok place
  | .above, c :: cs => do files.follow (← stepAbove c) cs
  | .inside place, c :: cs => do files.follow (← files.step place c cs.isEmpty) cs

/-- The place that a path names. -/
def locate (files : Files) (path : String) : Except FileError Place :=
  if path.toList.contains '\x00' then .error .invalidName
  else if maxPath < path.utf8ByteSize then .error .nameTooLong
  else if path.isEmpty then .error .notFound
  else files.follow (if Path.isAbsolute path then .above else .inside []) (Path.components path)

def read (files : Files) (path : String) : Except FileError (List UInt8) := do
  match ← files.locate path with
  | .above => throw .isADirectory
  | .inside place =>
    match files.get? place with
    | some content => return content
    | none => throw (if files.isDirectory place then .isADirectory else .notFound)

/-- Put a content at a place. -/
def put (files : Files) (place : List String) (content : List UInt8) : Files :=
  { entries := files.entries.filter (·.1 != place) ++ [(place, content)] }

def write (files : Files) (path : String) (content : List UInt8) : Except FileError Files := do
  match ← files.locate path with
  | .above => throw .isADirectory
  | .inside place =>
    if files.isDirectory place then throw .isADirectory
    return files.put place content

def remove (files : Files) (path : String) : Files :=
  match files.locate path with
  | .ok (.inside place) => { entries := files.entries.filter (·.1 != place) }
  | _ => files

/-- Access to a tree that is the state. -/
def storage : Storage (StateM Files) where
  read path := return (← get).read path
  write path content := do
    match (← get).write path content with
    | .ok files => set files; return .ok ()
    | .error e => return .error e
  remove path := modify (Files.remove · path)

end Files

end Sequencer
