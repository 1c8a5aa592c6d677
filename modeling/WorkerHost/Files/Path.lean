import WorkerHost.Text.Words
/-!
Paths as text: pieces between slashes. Empty pieces and single points say nothing about the place a
path leads to.
-/

namespace WorkerHost.Path

open Text

/-- The pieces of a path, empty ones too. -/
def pieces (path : String) : List String :=
  (path.toList.splitOn '/').map String.ofList

/-- Whether a piece names something: a file, a directory, or the parent. -/
def isName (piece : String) : Bool :=
  piece != "" && piece != "."

/-- The pieces that name something. -/
def names (path : String) : List String :=
  (pieces path).filter isName

def isAbsolute (path : String) : Bool :=
  path.toList.head? == some '/'

/-- A path as seen from a base directory. -/
def join (base path : String) : String :=
  if isAbsolute path || base == "" then path
  else if base.toList.getLast? == some '/' then base ++ path
  else base ++ "/" ++ path

/-- The name of the file at the end of a path. -/
def fileName? (path : String) : Option String := do
  let name ← (names path).getLast?
  guard (name != "..")
  return name

/-- What follows the last point of the name, if something precedes that point. -/
def extension? (path : String) : Option String := do
  let name ← fileName? path
  let reversed := name.toList.reverse
  let (ext, stem) ← splitOnce (· == '.') reversed
  guard !stem.isEmpty
  return String.ofList ext.reverse

/-- Some pieces, each time with more of those that follow, as far as the last one is a name; the
longest list comes first. -/
def extended (front : List String) : List String → List (List String)
  | [] => []
  | piece :: rest =>
    let front := front ++ [piece]
    extended front rest ++ if isName piece then [front] else []

/-- The directories on the way to what a path names, the nearest first, without the root. -/
def above (path : String) : List String :=
  match pieces path with
  | [] => []
  | first :: rest =>
    let fronts := extended [first] rest ++ if first == "" then [] else [[first]]
    fronts.tail.map ("/".intercalate ·)

end WorkerHost.Path
