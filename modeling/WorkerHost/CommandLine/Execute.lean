import WorkerHost.CommandLine.Arguments
import WorkerHost.Environment.Workers
import WorkerHost.Text.Lines
/-!
Executing a command line: from the arguments, the variables, the files and the input to what is
written, the files as they are afterwards, and the exit status.
-/

namespace WorkerHost.CommandLine

/-- Why a command fails. -/
inductive Failure where
  | config (e : ConfigError)
  | fetch (e : FetchError)
  | storage (e : StorageError)
  | worker (e : WorkerError)
  | run (e : RunError)
  /-- a store without a name was asked for -/
  | namelessStore

namespace Failure

def message : Failure → String
  | config e => e.message
  | fetch e => e.message
  | storage e => e.message
  | worker e => e.message
  | run e => e.message
  | namelessStore => "a store has to have a name"

/-- The exit status of a failure. A store without a name is taken for a fault of the program, not of
what it was given. -/
def status : Failure → Nat
  | namelessStore => 101
  | _ => 1

/-- What lies behind a failure. -/
def cause? : Failure → Option String
  | worker (.interpreter e) => some e.text
  | worker (.hook e) => some e.message
  | worker (.channel e) => some e.message
  | storage (.codec e) => some e.message
  | run (.hookCode _ e) => some e.text
  | _ => none

/-- A text with every line moved to the right. -/
def indented (text : String) : String :=
  "    " ++ "\n    ".intercalate ((text.toList.splitOn '\n').map String.ofList)

/-- A failure as it is shown. -/
def report (f : Failure) : String :=
  "Error: " ++ f.message ++ "\n" ++
    ((f.cause?.map fun c => "\nCaused by:\n" ++ indented c ++ "\n").getD "")

end Failure

/-- What a command line comes to in the end. -/
structure Outcome where
  exit : Nat
  stdout : String
  stderr : String
  files : FileTree

/-- The settings: the named file, or the default one, may be missing. -/
def loadSettings (a : Arguments) (vars : List (String × String)) (files : FileTree) :
    Except Failure Settings :=
  match files.read (a.settings.getD Settings.defaultFile) with
  | .error _ => (Settings.load none vars).mapError .config
  | .ok bytes =>
    match Text.Utf8.toString? bytes with
    | some text => (Settings.load (some text) vars).mapError .config
    | none => .error (.config .settings)

/-- The list of the phases, each with what it collects. -/
def phaseList : String :=
  String.join (Phase.all.map fun p =>
    let kind := match p.kind with
      | .callback => "Callback"
      | .code => "Code"
    let gap := String.ofList (List.replicate (20 - p.text.length) ' ')
    p.text ++ gap ++ " " ++ kind ++ "\n")

/-! ## Running a script -/

/-- The name of the terminal that stands for the streams of the process. -/
def terminalName : String := "stdio"

/-- Computations of a run, which can fail. -/
abbrev RunM := ExceptT Failure (StateM Environment)

def attempt {ε α : Type} (reason : ε → Failure) (x : StateM Environment (Except ε α)) : RunM α :=
  ExceptT.mk (do return (← x).mapError reason)

/-- Runs a script without a worker. -/
def runInProcess (a : RunArguments) (mode : RunMode) : RunM Value := do
  let s := (← get).state
  let code ← attempt .fetch (pure (SourceRef.load s.files (.url a.script)))
  let kind := a.interpreter.getD s.settings.interpreter
  let l ← attempt .worker (pure (s.createInterpreter kind a.version .null))
  attempt .run (Environment.onState fun s =>
    let ((r, _), s) := LocalInterpreter.run a.script code mode .null l s
    (r, s))

/-- Runs a script in a worker, with lines of input if a terminal is attached. -/
def runInWorker (a : RunArguments) (mode : RunMode) (lines : List String) : RunM Value := do
  let options : WorkerOptions := {
    interpreter := a.interpreter
    version := a.version
    config := a.config.map .url
    mode := some mode
    name := none
    terminal := if a.terminal then some terminalName else none
    methods := [] }
  match ← Environment.createWorker (.url a.script) options with
  | none => return .null
  | some (.error e) => throw (.worker e)
  | some (.ok w) =>
    for line in lines do
      Environment.onTerminal w (·.feedLine line)
    let outcome ← Environment.finished w
    attempt .storage (Environment.onState (·.syncStore))
    Environment.terminate w
    match outcome with
    | some (.run r) => attempt .run (pure r)
    | _ => return .null

/-- Runs a script, in a worker unless it is to run in the process. -/
def runScript (a : RunArguments) (lines : List String) : RunM Value := do
  let settings := (← get).state.settings
  if let some name := a.storage then
    attempt .storage (Environment.onState (·.openStore settings.storagePath name))
    if name == "" then throw .namelessStore
  let mode := if a.async then .async else settings.runMode
  if a.inProcess then runInProcess a mode else runInWorker a mode lines

/-- What a value adds to the output. -/
def resultText (s : EnvironmentState) (v : Value) : String :=
  if v.isNull then "" else s.heap.display v ++ "\n"

/-- Executes `run`. -/
def executeRun (a : RunArguments) (settings : Settings) (files : FileTree) (stdin : String) :
    Outcome :=
  let lines := (Text.lines stdin.toList).map String.ofList
  let (r, y) := (runScript a lines).run (Environment.new .host settings ⟨files, none⟩)
  let s := y.state
  let written := s.output ++ s.display terminalName
  match r with
  | .ok v => ⟨0, written ++ resultText s v, "", s.files.tree⟩
  | .error f => ⟨f.status, written, f.report, s.files.tree⟩

/-- Executes a command with settings. -/
def executeCommand (c : Command) (settings : Settings) (files : FileTree) (stdin : String) :
    Outcome :=
  match c with
  | .phases => ⟨0, phaseList, "", files⟩
  | .run a => executeRun a settings files stdin

/-! ## The command line as a whole -/

/-- Executes a command line. -/
def execute (args : List String) (vars : List (String × String)) (files : FileTree)
    (stdin : String) : Outcome :=
  match Request.ofArguments args with
  | .help text => ⟨0, text, "", files⟩
  | .mistake => ⟨2, "", "error: invalid command line\n", files⟩
  | .perform a =>
    match loadSettings a vars files with
    | .ok settings => executeCommand a.command settings files stdin
    | .error f => ⟨1, "", f.report, files⟩

end WorkerHost.CommandLine
