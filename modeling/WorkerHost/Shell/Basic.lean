import WorkerHost.Lifecycle.Basic
import WorkerHost.Value.Display
/-!
The shell interpreter: its variables, the modules it can call and the streams it is bound to.
-/

namespace WorkerHost

/-- A failure of a stream. -/
inductive StreamError where
  /-- the reader is gone -/
  | brokenPipe (message : String)
  | other (message : String)
  deriving DecidableEq

namespace StreamError

def name : StreamError → String
  | brokenPipe _ => "BrokenPipe"
  | other _ => "Other"

def message : StreamError → String
  | brokenPipe text | other text => text

/-- The failure of a stream over a channel. -/
def ofChannel : ChannelError → StreamError
  | .closed => brokenPipe ChannelError.closed.message
  | e => other e.message

end StreamError

/-- Functions by their names. -/
abbrev Module := Dict Function

/-- The functions as a module; a later one replaces an earlier one of its name. -/
def Module.ofList (fs : List Function) : Module :=
  Dict.ofList (fs.map fun f => (f.name, f))

/-- A shell between two lines. -/
structure Shell where
  version : String
  vars : Dict String
  modules : Dict Module

/-- What a shell is bound to: its streams, and a way to call functions and show values. -/
structure Console (m : Type → Type) where
  write : String → m (Except StreamError Unit)
  writeByte : UInt8 → m (Except StreamError Unit)
  flush : m (Except StreamError Unit)
  writeError : String → m (Except StreamError Unit)
  flushError : m (Except StreamError Unit)
  /-- a line of input, or the end of it -/
  readLine : Option String → m (Except StreamError (Option String))
  call : Function → List Value → m (Except String Value)
  display : Value → m String

namespace Shell

/-- The kind by which factories know the shell. -/
def kind : String := "shell"

/-- The one version there is. -/
def currentVersion : String := "1.0"

def new (version : String) : Shell := ⟨version, .empty, .empty⟩

/-- The value of a variable. -/
def var? (s : Shell) (name : String) : Option String :=
  s.vars.get? name

def setVar (s : Shell) (name value : String) : Shell :=
  { s with vars := s.vars.insert name value }

/-- Installs a module in place of one of the same name. -/
def setModule (s : Shell) (name : String) (m : Module) : Shell :=
  { s with modules := s.modules.insert name m }

/-- A new shell for a configuration, whose map `vars` gives the first variables. -/
def create (h : Heap) (version : Option String) (config : Value) : Except InterpreterError Shell :=
  let version := version.getD currentVersion
  if version != currentVersion then
    .error ⟨"ValueError", "unsupported shell version " ++ version⟩
  else
    match h.get? config "vars" with
    | some (.object ref) =>
      match h.read ref with
      | .map entries =>
        .ok { new version with vars := entries.map h.display }
      | .list _ => .ok (new version)
    | _ => .ok (new version)

/-- The shell as shown in diagnostics. -/
def debug (s : Shell) : String :=
  "Interpreter(" ++ kind ++ " " ++ s.version ++ ")"

end Shell
end WorkerHost
