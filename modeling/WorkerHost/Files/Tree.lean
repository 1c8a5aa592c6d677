import WorkerHost.Files.Path
import WorkerHost.Storage.Database
import WorkerHost.Text.Utf8
/-!
A tree of files and directories. A path is followed piece by piece from a directory; a file has
nothing below it, and a path that ends in a slash leads to a directory only.
-/

namespace WorkerHost

/-- What is at a place of a tree. -/
inductive FileNode where
  | directory
  | file (bytes : List UInt8)
  /-- a database, and whether a store has it open -/
  | database (db : Database) (held : Bool)

/-- A place: the names from the root down. -/
abbrev Place := List String

/-- Why a file can not be read, or a directory not be made. -/
inductive FileError where
  | notFound
  | alreadyExists
  | notADirectory
  | isADirectory
  | nameTooLong
  | nulByte
  | notUtf8
  deriving DecidableEq

def FileError.message : FileError → String
  | notFound => "No such file or directory (os error 2)"
  | alreadyExists => "File exists (os error 17)"
  | notADirectory => "Not a directory (os error 20)"
  | isADirectory => "Is a directory (os error 21)"
  | nameTooLong => "File name too long (os error 36)"
  | nulByte => "file name contained an unexpected NUL byte"
  | notUtf8 => "stream did not contain valid UTF-8"

/-- A tree of files, and the directory from which relative paths start. -/
structure FileTree where
  nodes : List (Place × FileNode)
  current : Place

namespace FileTree

/-- What is at a place. A place above another one is a directory. -/
def node? (t : FileTree) (p : Place) : Option FileNode :=
  match t.nodes.find? (·.1 == p) with
  | some (_, n) => some n
  | none =>
    if p.isEmpty || p.isPrefixOf t.current || t.nodes.any (p.isPrefixOf ·.1) then some .directory
    else none

/-- The tree with a place changed. -/
def put (t : FileTree) (p : Place) (n : FileNode) : FileTree :=
  { t with nodes := (p, n) :: t.nodes.filter (·.1 != p) }

/-- The directory in which a path starts. -/
def origin (t : FileTree) (path : String) : Place :=
  if Path.isAbsolute path then [] else t.current

def isDirectory (t : FileTree) (p : Place) : Bool :=
  match t.node? p with
  | some .directory => true
  | _ => false

/-- How many bytes a name can have. -/
def maxName : Nat := 255

/-- How many bytes a path can have. -/
def maxPath : Nat := 4095

/-- Follows pieces from a place; all but the last must lead to directories. -/
def follow (t : FileTree) : Place → List String → Except FileError Place
  | p, [] => .ok p
  | p, name :: rest =>
    match t.node? p with
    | none => .error .notFound
    | some .directory =>
      if name == "" || name == "." then follow t p rest
      else if name == ".." then follow t p.dropLast rest
      else if name.utf8ByteSize > maxName then .error .nameTooLong
      else follow t (p ++ [name]) rest
    | some _ => .error .notADirectory

/-- The place that a path leads to; all on the way to it exists. -/
def destination (t : FileTree) (path : String) : Except FileError Place := do
  if path == "" then throw .notFound
  if path.toList.contains '\x00' then throw .nulByte
  if path.utf8ByteSize > maxPath then throw .nameTooLong
  t.follow (t.origin path) (Path.pieces path)

/-- The place that a path leads to, which exists. -/
def locate (t : FileTree) (path : String) : Except FileError Place := do
  let p ← t.destination path
  if (t.node? p).isNone then throw .notFound
  return p

/-- The bytes of the file at a path. -/
def read (t : FileTree) (path : String) : Except FileError (List UInt8) := do
  match t.node? (← t.locate path) with
  | some (.file bytes) => return bytes
  | some (.database ..) => throw .notUtf8
  | _ => throw .isADirectory

/-- The text of the file at a path. -/
def readText (t : FileTree) (path : String) : Except FileError String := do
  match Text.Utf8.toString? (← t.read path) with
  | some text => return text
  | none => throw .notUtf8

/-- Makes a directory where nothing is. -/
def makeDirectory (t : FileTree) (path : String) : Except FileError FileTree := do
  let p ← t.destination path
  if (t.node? p).isSome then throw .alreadyExists
  return t.put p .directory

/-- Whether a path leads to a directory. -/
def leadsToDirectory (t : FileTree) (path : String) : Bool :=
  match t.locate path with
  | .ok p => t.isDirectory p
  | .error _ => false

/-- Makes the first of some directories, each of which lies in the next one, and before it those of
the others that do not exist. What has been made stays if it fails. -/
def makeDirectories (t : FileTree) : List String → Except FileError Unit × FileTree
  | [] => (.ok (), t)
  | path :: above =>
    let finish (t : FileTree) : Except FileError Unit × FileTree :=
      match t.makeDirectory path with
      | .ok t => (.ok (), t)
      | .error e => (if t.leadsToDirectory path then .ok () else .error e, t)
    match t.makeDirectory path with
    | .error .notFound =>
      match makeDirectories t above with
      | (.ok (), t) => finish t
      | (.error e, t) => (.error e, t)
    | _ => finish t

/-- The names directly below a place, in order. -/
def listing (t : FileTree) (p : Place) : List String :=
  let names := t.nodes.filterMap fun (q, _) => if p.isPrefixOf q then q[p.length]? else none
  (Dict.ofList (names.map fun n => (n, ()))).keys

end FileTree
end WorkerHost
