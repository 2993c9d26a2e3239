/-! Paths of files as text: components divided by slashes.

    A path that starts with a slash is absolute. Empty components and dots name the place where they
    stand and do not count, except for a dot at the start. -/

namespace Sequencer.Path

/-- The components of a path, those that do not count included. -/
def components (path : String) : List String :=
  (path.toList.splitOn '/').map String.ofList

def isAbsolute (path : String) : Bool := path.toList.head? == some '/'

/-- Does a component name the place where it stands? -/
def isIdle (component : String) : Bool := component == "" || component == "."

/-- Drop the components at the end that do not count. The first one does. -/
def trimEnd : List String → List String
  | [] => []
  | first :: rest => first :: (rest.reverse.dropWhile isIdle).reverse

/-- A path from its components. -/
def ofComponents : List String → String
  | [""] => "/"
  | cs => String.intercalate "/" cs

/-- The directory that holds what a path names; nothing for a root and for an empty path. -/
def parent? (path : String) : Option String :=
  match trimEnd (components path) with
  | [] | [""] => none
  | cs => some (ofComponents (trimEnd cs.dropLast))

/-- A path as seen from a base. -/
def join (base path : String) : String :=
  if isAbsolute path || base.isEmpty then path
  else if base.toList.getLast? == some '/' then base ++ path
  else base ++ "/" ++ path

/-- The last component of a path. -/
def fileName (path : String) : String := (trimEnd (components path)).getLastD ""

/-- A name without its extension. A dot at the start begins no extension. -/
def stem (name : String) : String :=
  match (name.toList.reverse.dropWhile (· ≠ '.')).tail.reverse with
  | [] => name
  | cs => String.ofList cs

/-- The path of another file in the same directory. -/
def sibling (path name : String) : String := join ((parent? path).getD "") name

end Sequencer.Path
