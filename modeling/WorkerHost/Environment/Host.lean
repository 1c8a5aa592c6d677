import WorkerHost.Environment.Worker
/-!
What an environment does for its workers: the methods that every worker can call, those of a store
and of a terminal, and the runs that the host drives.
-/

namespace WorkerHost

/-- A computation of the host that ends in the answer to a call. -/
abbrev Service := HostTask EnvironmentState (Except RemoteError Value)

/-- A method that a worker can call. -/
inductive HostMethod where
  | sleep
  | requestPermission
  | notify
  | write
  | read
  | storeGet
  | storeSet
  | storeDelete
  | storeKeys
  | storeSync
  | terminalRead (session : Nat)
  | terminalWrite (session : Nat)
  /-- a method of the worker's creator, which is told the channel of the call -/
  | custom (program : Nat → List Value → Service)

namespace HostMethod

/-- The methods of every worker. -/
def standard : List (String × HostMethod) :=
  [(Method.sleep, sleep), (Method.requestPermission, requestPermission), (Method.notify, notify),
    (Method.write, write), (Method.read, read)]

/-- The methods of a worker whose environment has a store. -/
def ofStore : List (String × HostMethod) :=
  [("storage.get", storeGet), ("storage.set", storeSet), ("storage.delete", storeDelete),
    ("storage.keys", storeKeys), ("storage.sync", storeSync)]

/-- The methods of a new worker: those of every worker, those of the store if there is one, then
those of the worker's creator. -/
def forWorker (hasStore : Bool) (own : List (String × HostMethod)) : List (String × HostMethod) :=
  standard ++ (if hasStore then ofStore else []) ++ own

/-- The text of an argument, empty if it is missing. -/
def textAt (args : List Value) (i : Nat) (s : EnvironmentState) : String :=
  (args[i]?.map s.heap.display).getD ""

/-! ## The store -/

/-- What a method does with the store. -/
abbrev StoreAction :=
  Store → Heap → FileTree → Except RemoteError Value × Store × Heap × FileTree

def withStore (f : StoreAction) : Service := do
  return (← modifyGet (·.onStore f)).getD (.error ⟨"OSError", "no store"⟩)

/-- Does something with the store and the key that the first argument is. -/
def withKey (args : List Value) (f : String → StoreAction) : Service :=
  match args.head?.bind Value.asStr? with
  | some key => withStore (f key)
  | none => return .error ⟨"TypeError", "storage key must be a string"⟩

/-- The failure of a store as a worker is told of it. -/
def storeFailure (e : StorageError) : RemoteError :=
  ⟨"OSError", e.message⟩

/-! ## The methods -/

/-- What a method does. -/
def serve (channel : Nat) (args : List Value) : HostMethod → Service
  | sleep => do
    let millis := ((args.head?.bind Value.asInt?).getD 0).toInt.toNat
    Task.ask (Q := HostAsk) (R := HostAsk.Answer) (.sleep millis)
    return .ok .null
  | requestPermission => do
    let s ← get
    return .ok (.bool (s.settings.permits (textAt args 0 s)))
  | notify => do
    modify fun s => s.note (textAt args 0 s)
    return .ok .null
  | write => do
    modify fun s => s.print (textAt args 1 s)
    return .ok .null
  | read => return .error ⟨"OSError", "stdin is not attached to a terminal"⟩
  | storeGet => withKey args fun key store h tree =>
    match store.get h key with
    | .ok (v, h) => (.ok (v.getD .null), store, h, tree)
    | .error e => (.error (storeFailure (.codec e)), store, h, tree)
  | storeSet => withKey args fun key store h tree =>
    match store.set h key (args[1]?.getD .null) with
    | .ok store => (.ok .null, store, h, tree)
    | .error e => (.error (storeFailure (.codec e)), store, h, tree)
  | storeDelete => withKey args fun key store h tree =>
    let (there, store) := store.delete key
    (.ok (.bool there), store, h, tree)
  | storeKeys => withStore fun store h tree =>
    let (v, h) := h.newList (store.keys.map .str)
    (.ok v, store, h, tree)
  | storeSync => withStore fun store h tree =>
    let (r, store, tree) := store.syncIn tree .good
    ((r.map fun () => .null).mapError storeFailure, store, h, tree)
  | terminalRead session => do
    let prompt := args.head?.bind Value.asStr?
    let read ← modifyGet (EnvironmentState.onSession session (·.beginRead prompt) 0)
    match ← Task.ask (Q := HostAsk) (R := HostAsk.Answer) (.line session read) with
    | some line => return .ok (.str line)
    | none => return .error ⟨"EOFError", "terminal closed"⟩
  | terminalWrite session =>
    match args[1]?.bind Value.asStr? with
    | some data => do
      modify fun s => (s.onSession session (fun t => ((), t.write data)) ()).2
      return .ok .null
    | none => return .error ⟨"TypeError", "write expects (stream, data)"⟩
  | custom program => program channel args

end HostMethod

namespace HostEndpoint

/-- Adds methods one after another until one is refused; those before it stay. -/
def registerAll (e : HostEndpoint HostMethod) :
    List (String × HostMethod) → Except ChannelError Unit × HostEndpoint HostMethod
  | [] => (.ok (), e)
  | (name, method) :: rest =>
    match e.register name method with
    | .ok e => e.registerAll rest
    | .error err => (.error err, e)

/-- Reads and writes go to a session from now on. -/
def bindTerminal (e : HostEndpoint HostMethod) (session : Nat) : HostEndpoint HostMethod :=
  let others := e.handlers.entries.filter fun h => h.1 != Method.read && h.1 != Method.write
  { e with handlers := ⟨others ++
    [(Method.read, .terminalRead session), (Method.write, .terminalWrite session)]⟩ }

end HostEndpoint

/-! ## Runs driven by the host -/

/-- What runs of the host for a worker are bound to: no interpreter, but a worker. -/
def hostBinding (config : Value) : Binding (HostTask EnvironmentState) where
  context := .own
  config := config
  hasWorker := true
  interpreter? := return none
  execute _ := return none
  notify text := modify (·.note text)

/-- One run of a worker with the phases of the host around it. -/
def drive (channel : Nat) (config : Value) (source code : String) (mode : RunMode) :
    HostTask EnvironmentState (Except RunError Value) := do
  let b := hostBinding config
  let run ← b.descriptor source mode
  b.stage.ensureReadyAsync run
  b.stage.around mode run do
    return (← callWorker channel (.method mode.method) [.str code]).mapError RunError.ofChannel

/-- What an environment and its workers do when they are called. -/
def environmentPrograms : Programs EnvironmentState HostMethod RunMode where
  host channel method args := method.serve channel args
  worker := WorkerContext.programs
  lineOf s session read := s.sessions[session]?.bind (·.endOf? read)

end WorkerHost
