import WorkerHost.CommandLine.Execute
import WorkerHost.Storage.DatabaseText
/-!
The program: it reads the files that a command line needs into a tree, executes the command line on
that tree, and writes out what came of it. Input is read to its end before a script that can read it
starts.
-/

namespace WorkerHost.CommandLine

/-- The variables that settings can come from. -/
def settingsVariables : List String :=
  ["TETHER_LOG", "TETHER_INTERPRETER", "TETHER_RUN_MODE", "TETHER_ROLE_POLICY",
    "TETHER_AFTER_RUN_ORDER", "TETHER_STORAGE_PATH", "TETHER_PERMISSIONS", "TETHER_TERMINAL",
    "TETHER_TERMINAL__ECHO"]

/-- The values of those variables that are set. -/
def readVariables : IO (List (String × String)) :=
  settingsVariables.filterMapM fun name => do
    return (← IO.getEnv name).map (name, ·)

/-- The place that a path names. -/
def placeOf (t : FileTree) (path : String) : Place :=
  (Path.names path).foldl (fun p name => if name == ".." then p.dropLast else p ++ [name])
    (t.origin path)

/-- Puts what a path leads to into a tree, if it is a file that can be read. -/
def addFile (node : List UInt8 → FileNode) (t : FileTree) (path : String) : IO FileTree := do
  try
    let bytes ← IO.FS.readBinFile path
    return t.put (placeOf t path) (node bytes.toList)
  catch _ => return t

/-- The file of a database; what holds none stays a plain file. -/
def databaseNode (bytes : List UInt8) : FileNode :=
  match Database.read? bytes with
  | some db => .database db false
  | none => .file bytes

/-- Writes the directories and databases of a tree back. -/
def saveTree (t : FileTree) : IO Unit :=
  t.nodes.reverse.forM fun (place, node) => do
    let path := "/" ++ "/".intercalate place
    match node with
    | .directory => IO.FS.createDirAll path
    | .database db _ => IO.FS.writeBinFile path ⟨db.write.toArray⟩
    | .file _ => return ()

/-- All of the standard input. -/
def readInput : IO String := do
  (← IO.getStdin).readToEnd

/-- Writes what a command wrote, and gives its exit status. -/
def finish (r : Outcome) : IO UInt32 := do
  let out ← IO.getStdout
  out.putStr r.stdout
  out.flush
  (← IO.getStderr).putStr r.stderr
  return UInt32.ofNat r.exit

/-- Performs a command. -/
def perform (args : List String) (a : Arguments) : IO UInt32 := do
  let vars ← readVariables
  let current := Path.names (← IO.currentDir).toString
  let t ← addFile .file ⟨[], current⟩ (a.settings.getD Settings.defaultFile)
  match loadSettings a vars t with
  | .error f => finish ⟨1, "", f.report, t⟩
  | .ok settings => do
    let t ← a.command.paths.foldlM (addFile .file) t
    match a.command with
    | .run { storage := some _, terminal, .. } => do
      let t ← addFile databaseNode t settings.storagePath
      let input ← if terminal then readInput else pure ""
      let r := execute args vars t input
      saveTree r.files
      finish r
    | .run { terminal := true, .. } => do finish (execute args vars t (← readInput))
    | _ => finish (execute args vars t "")

end WorkerHost.CommandLine

open WorkerHost.CommandLine in
/-- Runs the program. -/
def main (args : List String) : IO UInt32 := do
  match Request.ofArguments args with
  | .perform a => perform args a
  | _ => finish (execute args [] ⟨[], []⟩ "")
