import WorkerHost.Config.Source
import WorkerHost.Hooks.Phase
import WorkerHost.Shell.Basic
/-!
Interpreter factories, and what can go wrong on the way to a worker.
-/

namespace WorkerHost

/-- Why a worker can not be started or used. -/
inductive WorkerError where
  | fetch (e : FetchError)
  | config (e : ConfigError)
  | unknownInterpreter (kind : String)
  | interpreter (e : InterpreterError)
  | hook (e : HookError)
  | channel (e : ChannelError)
  /-- the worker's thread came to an end before it was ready -/
  | threadPanic
  /-- the system has no thread for the worker -/
  | spawnFailed (reason : String)

namespace WorkerError

def name : WorkerError → String
  | fetch _ => "Fetch"
  | config _ => "Config"
  | unknownInterpreter _ => "UnknownInterpreter"
  | interpreter _ => "Interpreter"
  | hook _ => "Hook"
  | channel _ => "Channel"
  | threadPanic => "ThreadPanic"
  | spawnFailed _ => "SpawnFailed"

def message : WorkerError → String
  | fetch e => e.message
  | config e => e.message
  | unknownInterpreter kind => "Unknown interpreter: " ++ kind
  | interpreter e => "Interpreter failed to start: " ++ e.text
  | hook e => "Hook error: " ++ e.message
  | channel e => "Channel error: " ++ e.message
  | threadPanic => "Worker thread panicked"
  | spawnFailed reason => "Failed to spawn worker thread: " ++ reason

/-- The error of a configuration that can not be had. -/
def ofConfig : ConfigFailure → WorkerError
  | .fetch e => fetch e
  | .config e => config e

end WorkerError

/-- What a factory does when an interpreter is asked for. -/
inductive FactoryBehaviour where
  /-- makes a shell -/
  | shell
  /-- refuses -/
  | failing
  /-- takes the thread down -/
  | crashing
  deriving DecidableEq

/-- Makes interpreters of one kind. -/
structure Factory where
  kind : String
  behaviour : FactoryBehaviour

namespace Factory

/-- The factory that every environment has. -/
def shell : Factory := ⟨Shell.kind, .shell⟩

/-- An interpreter for a configuration. -/
def create (f : Factory) (h : Heap) (version : Option String) (config : Value) :
    Except WorkerError Shell :=
  match f.behaviour with
  | .shell => (Shell.create h version config).mapError .interpreter
  | .failing => .error (.interpreter ⟨"BootError", "factory failed"⟩)
  | .crashing => .error .threadPanic

end Factory
end WorkerHost
