import WorkerHost.Channel.Handler
import WorkerHost.Environment.Context
import WorkerHost.Shell.Run
import WorkerHost.Stream.Stdio
/-!
The inside of a worker: one interpreter whose streams, notifications and module `tether` are calls
of the host, and a handler for each mode that runs source text in it. Only one run is in progress
at a time.
-/

namespace WorkerHost

/-- The method of a worker that runs source text in a mode. -/
def RunMode.method : RunMode → String
  | .sync => Method.run
  | .async => Method.runAsync

namespace WorkerContext

/-- The module through which interpreted code reaches the host. -/
def hostModule : StateM Heap Module := do
  let function (name : String) (s : HostService) : StateM Heap Function := fun h =>
    h.newFunction name (.service s)
  return Module.ofList [← function "sleep" .sleep, ← function "notify" .notify,
    ← function "request_permission" .requestPermission, ← function "call" .call]

/-- The name of that module. -/
def hostModuleName : String := "tether"

/-! ## Streams -/

/-- Keeps a sink. -/
def putSink (channel : Nat) (stream : Stream) (k : ChannelSink) : WorkerTask EnvironmentState Unit :=
  modify (·.updateWorker channel (·.setSink k stream))

/-- The sink of a stream at this moment. -/
def getSink (channel : Nat) (stream : Stream) : WorkerTask EnvironmentState ChannelSink := do
  return ((← get).worker channel).sink stream

def write (channel : Nat) (stream : Stream) (data : String) :
    WorkerTask EnvironmentState (Except StreamError Unit) := do
  (← getSink channel stream).write (workerApi.write stream) (putSink channel stream) data

def flush (channel : Nat) (stream : Stream) :
    WorkerTask EnvironmentState (Except StreamError Unit) := do
  (← getSink channel stream).drain (workerApi.write stream) (putSink channel stream)

/-- What the interpreter is bound to. -/
def console (channel : Nat) : Console (WorkerTask EnvironmentState) where
  write := write channel .stdout
  writeByte b := do
    (← getSink channel .stdout).writeByte (workerApi.write .stdout) (putSink channel .stdout) b
  flush := flush channel .stdout
  writeError := write channel .stderr
  flushError := flush channel .stderr
  readLine := workerApi.readLine
  call f args := f.body.asFunction workerApi args
  display v := readHeap (·.display v)

/-! ## Runs -/

/-- Runs code in the interpreter. -/
def execute (channel : Nat) (code : String) :
    WorkerTask EnvironmentState (Except InterpreterError Value) := do
  let (r, shell) ← ((← get).worker channel).shell.run (console channel) code
  modify (·.updateWorker channel fun w => { w with shell := shell })
  return r

/-- What runs in the worker are bound to. -/
def binding (channel : Nat) (config : Value) : Binding (WorkerTask EnvironmentState) where
  context := .worker channel
  config := config
  hasWorker := false
  interpreter? := do return some ((← get).worker channel).shell.debug
  execute code := do return some (← execute channel code)
  notify := workerApi.tell

/-- The first computation of a worker: its callbacks for `onReady`. -/
def becomeReady (channel : Nat) : WorkerTask EnvironmentState Unit := do
  let b := binding channel ((← get).worker channel).config
  b.stage.ensureReady (← b.descriptor "<bootstrap>" .sync)

def setBusy (channel : Nat) (busy : Bool) : WorkerTask EnvironmentState Unit :=
  modify (·.updateWorker channel fun w => { w with busy := busy })

/-- Runs source text through the lifecycle of the worker, unless a run is in progress. -/
def runSource (channel : Nat) (mode : RunMode) (code : String) :
    WorkerTask EnvironmentState (Except RemoteError Value) := do
  let w := (← get).worker channel
  if w.busy then return .error ⟨"RuntimeError", "interpreter is busy"⟩
  else do
    setBusy channel true
    let b := binding channel w.config
    let outcome ← b.stage.run mode (← b.descriptor w.name mode) code
    setBusy channel false
    return outcome.mapError RunError.toRemote

/-- Serves a call of the method that runs source text in a mode. -/
def serve (channel : Nat) (mode : RunMode) (args : List Value) :
    WorkerTask EnvironmentState (Except RemoteError Value) :=
  match args.head?.bind Value.asStr? with
  | some code => runSource channel mode code
  | none => return .error ⟨"TypeError", mode.method ++ " expects source text"⟩

/-- What a worker does when it is called. -/
def programs (channel : Nat) : WorkerPrograms EnvironmentState RunMode where
  handler := serve channel
  function f args := f.body.asFunction workerApi args

end WorkerContext

namespace EnvironmentState

/-- The context of a new worker: the code that the environment ships, then the plugins for workers,
then an interpreter. A failure leaves only the mentions of hooks. -/
def bootWorker (name : String) (factory : Factory) (version : Option String) (config : Value)
    (s : EnvironmentState) : Except WorkerError WorkerContext × EnvironmentState :=
  let context := ContextState.new .worker s.settings
  match context.registry.install s.own.registry.workerCode with
  | (.error e, _) => (.error (.hook e), s)
  | (.ok (), registry) =>
    let (r, registry, mentions, group) :=
      Plugin.installAll registry s.mentions s.nextGroup s.plugins
    let s := { s with mentions := mentions, nextGroup := group }
    match r with
    | .error e => (.error (.hook e), s)
    | .ok () =>
      match factory.create s.heap version config with
      | .error e => (.error e, s)
      | .ok shell =>
        let (module, h) := WorkerContext.hostModule s.heap
        let shell := shell.setModule WorkerContext.hostModuleName module
        (.ok ⟨name, { context with registry := registry }, shell, config, false, .new, .new⟩,
          { s with heap := h })

end EnvironmentState
end WorkerHost
