import WorkerHost.Channel.Link
import WorkerHost.Hooks.Phase
/-!
Runs: their modes, their states, and how they fail.
-/

namespace WorkerHost

/-- An error raised by interpreted code or by the interpreter itself. -/
structure InterpreterError where
  kind : String
  message : String
  deriving DecidableEq, Inhabited

def InterpreterError.text (e : InterpreterError) : String :=
  e.kind ++ ": " ++ e.message

/-- The declared mode of a run. -/
inductive RunMode where
  | sync
  | async
  deriving DecidableEq, Inhabited

namespace RunMode

def text : RunMode → String
  | sync => "sync"
  | async => "async"

/-- The mode of a name. -/
def ofText? : String → Option RunMode
  | "sync" => some sync
  | "async" => some async
  | _ => none

end RunMode

/-- Which of the two after-run phases comes first. -/
inductive AfterRunOrder where
  | callbacksFirst
  | codeFirst
  deriving DecidableEq, Inhabited

namespace AfterRunOrder

def text : AfterRunOrder → String
  | callbacksFirst => "callbacks_first"
  | codeFirst => "code_first"

/-- The order of a name. -/
def ofText? : String → Option AfterRunOrder
  | "callbacks_first" => some callbacksFirst
  | "code_first" => some codeFirst
  | _ => none

end AfterRunOrder

/-- Where a run in progress is. -/
inductive RunState where
  | beforeRun
  | executing
  | afterRun
  deriving DecidableEq

def RunState.text : RunState → String
  | beforeRun => "before_run"
  | executing => "executing"
  | afterRun => "after_run"

/-- One run: a script, a line, a call. -/
structure RunDescriptor where
  id : UInt64
  /-- where the code came from -/
  source : String
  mode : RunMode
  deriving DecidableEq

/-- How a run fails. -/
inductive RunError where
  /-- the code of a phase failed -/
  | hookCode (phase : Phase) (e : InterpreterError)
  /-- the user's code failed -/
  | execution (e : InterpreterError)
  /-- the worker reported a failure -/
  | remote (e : RemoteError)
  /-- the channel to the worker failed -/
  | transport (e : ChannelError)
  deriving DecidableEq

namespace RunError

def name : RunError → String
  | hookCode .. => "HookCode"
  | execution _ => "Execution"
  | remote _ => "Remote"
  | transport _ => "Transport"

def message : RunError → String
  | hookCode phase e => phase.text ++ " hook code failed: " ++ e.text
  | execution e => e.text
  | remote e => "Worker run failed: " ++ e.text
  | transport e => "Worker channel failed: " ++ e.message

/-- The failure of a run whose call failed. -/
def ofChannel : ChannelError → RunError
  | .remote e => remote e
  | e => transport e

/-- The failure as a worker reports it to its host. -/
def toRemote : RunError → RemoteError
  | execution e => ⟨e.kind, e.message⟩
  | e@(hookCode ..) => ⟨"ConfigError", e.message⟩
  | remote e => e
  | transport e => ⟨"ChannelError", e.message⟩

end RunError

/-- The phases around a run of one mode. -/
structure RunPhases where
  codeBefore : Phase
  before : Phase
  after : Phase
  codeAfter : Phase

namespace RunPhases

/-- The phases of the driver that blocks. -/
def sync : RunPhases :=
  ⟨.codeBeforeRun, .onBeforeRun, .onAfterRun, .codeAfterRun⟩

/-- The phases of the driver that does not. -/
def async : RunPhases :=
  ⟨.codeBeforeRunAsync, .onBeforeRunAsync, .onAfterRunAsync, .codeAfterRunAsync⟩

end RunPhases

/-- The phases of a mode. -/
def RunMode.phases : RunMode → RunPhases
  | .sync => .sync
  | .async => .async

/-- The state of the lifecycle of a context. -/
structure Lifecycle where
  order : AfterRunOrder
  /-- whether the phase `onReady` is over -/
  ready : Bool
  /-- the runs in progress -/
  runs : List (UInt64 × RunState)
  nextRun : UInt64
  deriving DecidableEq

namespace Lifecycle

def new (order : AfterRunOrder) : Lifecycle := ⟨order, false, [], 1⟩

/-- A descriptor with the next number. Numbers come again after the last one of 64 bits. -/
def descriptor (l : Lifecycle) (source : String) (mode : RunMode) : RunDescriptor × Lifecycle :=
  (⟨l.nextRun, source, mode⟩, { l with nextRun := l.nextRun + 1 })

/-- Where a run is; none before it starts and after it ends. -/
def runState? (l : Lifecycle) (run : RunDescriptor) : Option RunState :=
  (l.runs.find? (·.1 == run.id)).map (·.2)

def activeRuns (l : Lifecycle) : Nat :=
  l.runs.length

/-- Notes where a run is. -/
def enter (l : Lifecycle) (run : RunDescriptor) (s : RunState) : Lifecycle :=
  { l with runs := (run.id, s) :: l.runs.filter (·.1 != run.id) }

/-- The run is over. -/
def leave (l : Lifecycle) (run : RunDescriptor) : Lifecycle :=
  { l with runs := l.runs.filter (·.1 != run.id) }

def stateText (l : Lifecycle) : String :=
  if l.ready then "ready" else "created"

end Lifecycle
end WorkerHost
