import WorkerHost.Channel.Api
import WorkerHost.Channel.Network
import WorkerHost.Value.Display
/-!
Handlers and functions whose bodies are data: what they do in a context that can call the other side
of a channel.
-/

namespace WorkerHost

/-- The failure that a handler's error text stands for: its kind up to the first space, and the rest
as the message. -/
def RemoteError.ofText (text : String) : RemoteError :=
  let cs := text.toList
  ⟨String.ofList (cs.takeWhile (· != ' ')), String.ofList ((cs.dropWhile (· != ' ')).drop 1)⟩

namespace Body
variable {m : Type → Type} [Monad m] [MonadHeap m]

/-- Asks the host for a service on behalf of a function. -/
def askHost (api : HostApi m) (args : List Value) : HostService → m (Except String Value)
  | .sleep => do
    let millis := ((args.head?.bind Value.asInt?).getD 0).toInt.toNat
    return ((← api.sleep (.ofMillis millis)).map fun _ => .null).mapError (·.message)
  | .notify => do
    let text ← readHeap fun h => " ".intercalate (args.map h.display)
    return ((← api.notify text).map fun _ => .null).mapError (·.message)
  | .requestPermission => do
    let resource ← readHeap fun h => (args.head?.map h.display).getD ""
    return ((← api.requestPermission resource).map .bool).mapError (·.message)
  | .call => do
    match args with
    | [] => return .error "call expects a method name"
    | method :: args =>
      let method ← readHeap (·.display method)
      return (← api.callCustom method args).mapError (·.message)

/-- What a function with a body answers in a context with a host. -/
def asFunction (api : HostApi m) (args : List Value) : Body → m (Except String Value)
  | .forward method => do return (← api.callCustom method args).mapError (·.message)
  | .service s => askHost api args s
  | b => onHeap fun h => b.call h args

/-- What a handler with a body answers, given how to call the other side. One that forwards answers
the method and the result together. -/
def asHandler (call : String → List Value → m CallOutcome) (args : List Value) :
    Body → m (Except RemoteError Value)
  | .forward method => do
    match ← call method args with
    | .ok v => return .ok (← onHeap fun h => h.newList [.str method, v])
    | .error e => return .error ⟨"ChannelError", e.message⟩
  | b => do
    let r ← onHeap fun h => b.call h args
    return r.mapError .ofText

end Body

/-- Calls the host from a worker. -/
def callHost {σ : Type} (target : Target) (args : List Value) : WorkerTask σ CallOutcome :=
  Task.ask (Q := HostCall) (R := fun _ => CallOutcome) ⟨target, args⟩

/-- The host as seen from a worker. -/
def workerApi {σ : Type} [HasHeap σ] : HostApi (WorkerTask σ) :=
  .over callHost fun v => readHeap (·.kind v)

/-- A handler of the host. -/
inductive HostHandler where
  | body (b : Body)
  /-- never answers -/
  | hang

/-- Calls a worker from a task of the host. -/
def callWorker {σ : Type} (channel : Nat) (target : Target) (args : List Value) :
    HostTask σ CallOutcome :=
  Task.ask (Q := HostAsk) (R := HostAsk.Answer) (.call channel target args)

/-- Never ends. -/
def hang {σ α : Type} : HostTask σ α := fun s =>
  .ask .never s fun e _ => nomatch e

/-- Handlers with bodies at both ends, and nothing that reads lines. -/
def bodyPrograms {σ : Type} [HasHeap σ] : Programs σ HostHandler Body where
  host channel handler args :=
    match handler with
    | .body b => b.asHandler (fun method args => callWorker channel (.method method) args) args
    | .hang => hang
  worker _ :=
    { handler := fun b args => b.asHandler (fun method args => callHost (.method method) args) args
      function := fun f args => f.body.asFunction workerApi args }
  lineOf _ _ _ := none

end WorkerHost
