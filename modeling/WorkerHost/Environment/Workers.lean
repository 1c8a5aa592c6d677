import WorkerHost.Environment.Host
import WorkerHost.Environment.Local
/-!
Environments at work: how workers are started, run, given a terminal and ended. An environment is
the network of its workers' channels; after every operation it goes on until everything waits.
-/

namespace WorkerHost

/-- What a task of an environment ends in. -/
inductive TaskResult where
  | run (outcome : Except RunError Value)
  | call (outcome : CallOutcome)

/-- An environment with its workers. -/
abbrev Environment := Network EnvironmentState HostMethod RunMode Unit TaskResult

/-- What a worker is started with. -/
structure WorkerOptions where
  /-- the kind of its interpreter; that of the settings if none is said -/
  interpreter : Option String
  version : Option String
  config : Option ConfigSource
  /-- the mode of the main run; that of the settings if none is said -/
  mode : Option RunMode
  name : Option String
  /-- the name of a terminal that is attached before the main run -/
  terminal : Option String
  /-- further methods that the worker can call -/
  methods : List (String × HostMethod)

instance : Inhabited WorkerOptions := ⟨⟨none, none, none, none, none, none, []⟩⟩

/-- A running worker as its host knows it. -/
structure Worker where
  id : UInt64
  name : String
  channel : Nat
  config : Value
  /-- the task of the main run -/
  main : Nat

/-- The text of a worker's number, which names it unless it is given a name. -/
def Worker.idText (id : UInt64) : String :=
  "worker-" ++ toString id

namespace Environment

def new (role : Role) (settings : Settings) (files : FileFetch) : Environment :=
  Network.new (.new role settings files)

/-- Does something to the state. -/
def onState {α : Type} (f : EnvironmentState → α × EnvironmentState) : StateM Environment α :=
  fun y =>
    let (a, s) := f y.state
    (a, { y with state := s })

/-- The threads whose host is gone come to an end. -/
def reap (y : Environment) : Environment :=
  { y with channels := y.channels.map fun c =>
      match c.thread.map (·.base) with
      | some Base.ended => c.dropWorker
      | _ => c }

/-- Goes on until everything waits; then the threads that have ended are reaped. -/
def settle : StateM Environment Unit := modify fun y =>
  let go (y : Environment) : Environment := Network.settle environmentPrograms Network.stepLimit y
  go (reap (go y))

/-! ## Starting workers -/

/-- Steps of starting a worker. -/
abbrev StartM := ExceptT WorkerError (StateM Environment)

/-- A step that may fail. -/
def attempt {ε α : Type} (reason : ε → WorkerError) (r : Except ε α) : StartM α :=
  ExceptT.mk (pure (r.mapError reason))

/-- The configuration of a worker. -/
def resolveConfig (source : Option ConfigSource) : StartM Value := do
  match source with
  | none => return .null
  | some source => do
    let s := (← get).state
    let (v, h) ← attempt .ofConfig (source.resolve s.files s.heap)
    modify fun y => { y with state := { y.state with heap := h } }
    return v

/-- The number of a new worker. It is used up, even if the worker does not start. -/
def nextId : StateM Environment UInt64 := onState fun s =>
  (s.nextWorker, { s with nextWorker := s.nextWorker + 1 })

/-- Opens the channel of a new worker. Neither its thread nor its context has been made. -/
def openChannel (name : String) : StateM Environment Nat := fun y =>
  (y.channels.size, { y with
    state := { y.state with workers := y.state.workers.push default }
    channels := y.channels.push ⟨.new name, .new, none⟩ })

/-- The host end of a channel takes methods until one is refused. -/
def registerMethods (channel : Nat) (methods : List (String × HostMethod)) : StartM Unit :=
  ExceptT.mk fun y =>
    match y.channels[channel]? with
    | some c =>
      let (r, host) := c.host.registerAll methods
      (r.mapError .channel, y.setChannel channel { c with host := host })
    | none => (.ok (), y)

/-- A worker gets a thread, if the system has one for it. The thread has begun nothing yet. -/
def startThread (channel : Nat) (name : String) : StartM Unit := ExceptT.mk fun y =>
  match y.state.noThread, y.channels[channel]? with
  | some reason, _ => (.error (.spawnFailed reason), y)
  | none, some c =>
    (.ok (), y.setChannel channel { c with thread := some ⟨.new name, [], .idle⟩ })
  | none, none => (.ok (), y)

/-- The thread of a channel begins the first computation of its worker. -/
def beginWork (channel : Nat) (y : Environment) : Environment :=
  match y.channels[channel]? with
  | some ⟨host, link, some thread⟩ =>
    let w : WorkerSide EnvironmentState RunMode Unit := ⟨thread, link, y.state⟩
    let w := w.start (WorkerContext.becomeReady channel)
    { y.setChannel channel ⟨host, w.link, some w.thread⟩ with state := w.state }
  | _ => y

/-- The thread of a worker makes its context and begins its first computation. -/
def bootThread (w : Worker) (factory : Factory) (version : Option String) : StartM Unit := do
  let context ← ExceptT.mk (onState (·.bootWorker w.name factory version w.config))
  modify fun y => beginWork w.channel
    { y with state := y.state.updateWorker w.channel fun _ => context }

/-! ### What goes away if a start fails -/

/-- Steps of starting a worker, with what goes away if one of them fails. -/
def ifFails {α : Type} (drop : StateM Environment Unit) (x : StartM α) : StartM α :=
  ExceptT.mk do
    match ← x.run with
    | .ok a => return .ok a
    | .error e => do
      drop
      return .error e

/-- The worker's end of a channel goes away. -/
def dropWorker (channel : Nat) : StateM Environment Unit := modify fun y =>
  { y with channels := y.channels.modify channel (·.dropWorker) }

/-- The channel of a worker closes, and its terminal is detached: what the end of a handle does. -/
def dropHandle (w : Worker) : StateM Environment Unit := do
  modify (·.closeHost w.channel)
  onState fun s => ((), s.forgetTerminal w.id)

/-- The host takes what has come over a channel. -/
def dispatch (channel : Nat) : StateM Environment Unit := modify fun y =>
  (Network.dispatch? environmentPrograms y channel).getD y

/-- The methods of a worker whose channel is open are registered, its thread begins, and its context
is made. Whatever there is of the worker when a step fails goes away again: without a thread, the
worker's end of the channel; with one, also the handle, which ends the worker. The host then sees
that no more messages will come. -/
def launch (w : Worker) (methods : List (String × HostMethod)) (factory : Factory)
    (version : Option String) : StartM Unit :=
  ifFails (dispatch w.channel) do
    ifFails (dropWorker w.channel) do
      registerMethods w.channel methods
      startThread w.channel w.name
    ifFails (do dropWorker w.channel; dropHandle w) do
      bootThread w factory version

/-- Everything up to the worker's first computation: the source text is loaded, the configuration
read, the factory found, the channel opened and the worker launched. -/
def prepare (source : SourceRef) (o : WorkerOptions) :
    StartM (Worker × String) := do
  let s := (← get).state
  let code ← attempt .fetch (source.load s.files)
  let config ← resolveConfig o.config
  let factory ← attempt id (s.factory (o.interpreter.getD s.settings.interpreter))
  let number ← nextId
  let name := o.name.getD (Worker.idText number)
  let channel ← openChannel name
  let w : Worker := ⟨number, name, channel, config, 0⟩
  launch w (HostMethod.forWorker s.store.isSome o.methods) factory o.version
  return (w, code)

/-- Whether the first computation of a worker is over. -/
def isReady (y : Environment) (channel : Nat) : Bool :=
  match y.channels[channel]?.bind (·.thread) with
  | some ⟨_, _, .finished ()⟩ => true
  | _ => false

/-- The worker takes calls of its methods from now on. -/
def serve (channel : Nat) (y : Environment) : Environment :=
  { y with channels := y.channels.modify channel fun c =>
      { c with thread := c.thread.map fun t =>
          let modes := [RunMode.sync, RunMode.async]
          { t with
            base := .serving
            endpoint := { t.endpoint with handlers := ⟨modes.map fun m => (m.method, m)⟩ } } } }

/-- Attaches a terminal to a worker that has none, and says whether it did. -/
def attachTerminal (w : Worker) (terminal : String) : StateM Environment Bool := do
  match ← onState (·.openTerminal w.id terminal) with
  | none => return false
  | some session => do
    modify fun y => { y with channels := y.channels.modify w.channel fun c =>
      { c with host := c.host.bindTerminal session } }
    return true

/-- Starts a task. -/
def spawn (task : HostTask EnvironmentState TaskResult) : StateM Environment Nat :=
  fun y => Network.spawn y task

/-- One run of a worker as a task. -/
def runTask (w : Worker) (source code : String) (mode : RunMode) :
    HostTask EnvironmentState TaskResult := do
  return .run (← drive w.channel w.config source code mode)

/-- Starts a worker and its main run. Why it did not start is shown to the user. There is no answer
while a callback of the worker waits for something that does not come. -/
def createWorker (source : SourceRef) (o : WorkerOptions) :
    StateM Environment (Option (Except WorkerError Worker)) := do
  match ← (prepare source o).run with
  | .error e => do
    onState fun s => ((), s.note ("Failed to start worker: " ++ e.message))
    return some (.error e)
  | .ok (w, code) => do
    settle
    if !isReady (← get) w.channel then return none
    modify (serve w.channel)
    if let some terminal := o.terminal then
      let _ ← attachTerminal w terminal
    let mode := o.mode.getD (← get).state.settings.runMode
    let main ← spawn (runTask w source.label code mode)
    settle
    return some (.ok { w with main := main })

/-! ## Working with workers -/

/-- The result of a task, once it has ended. -/
def await (ticket : Nat) : StateM Environment (Option TaskResult) := do
  settle
  return (← get).result? ticket

/-- One more run of a worker. -/
def run (w : Worker) (code : String) (mode : RunMode) :
    StateM Environment (Option TaskResult) := do
  await (← spawn (runTask w w.name code mode))

/-- A call of a worker past the lifecycle of the host. -/
def call (w : Worker) (target : Target) (args : List Value) :
    StateM Environment (Option TaskResult) := do
  await (← spawn (do return .call (← callWorker w.channel target args)))

/-- How the main run ended, once it has. -/
def finished (w : Worker) : StateM Environment (Option TaskResult) :=
  await w.main

/-- Does something to the session of a worker's terminal, if it has one. -/
def onTerminal (w : Worker) (f : Session → Session) : StateM Environment Unit := do
  match (← get).state.sessionOf? w.id with
  | some i => do
    onState (·.onSession i (fun t => ((), f t)) ())
    settle
  | none => return ()

/-- Ends a worker: its channel closes, and its terminal is detached. -/
def terminate (w : Worker) : StateM Environment Unit := do
  dropHandle w
  settle

def isTerminated (y : Environment) (w : Worker) : Bool :=
  (y.channels[w.channel]?.map (·.host.closed)).getD true

end Environment
end WorkerHost
