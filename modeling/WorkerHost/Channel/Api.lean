import WorkerHost.Channel.Link
/-!
The methods that both sides know, with their types. Everything else goes through `callCustom`.
-/

namespace WorkerHost

/-! ## The names of the methods -/

namespace Method

/-- reads a line, answered by the host -/
def read : String := "read"
/-- writes program output, answered by the host -/
def write : String := "write"
/-- waits for a number of milliseconds, answered by the host -/
def sleep : String := "sleep"
/-- asks for access to a resource, answered by the host -/
def requestPermission : String := "request_permission"
/-- shows a message to the user, answered by the host -/
def notify : String := "notify"
/-- runs source text, answered by the worker -/
def run : String := "run"
/-- runs source text in async mode, answered by the worker -/
def runAsync : String := "run_async"

end Method

/-- The output stream of a write. -/
inductive Stream where
  | stdout
  | stderr
  deriving DecidableEq

namespace Stream

def text : Stream → String
  | stdout => "stdout"
  | stderr => "stderr"

/-- The stream of a name, or what is wrong with the name. -/
def ofText : String → Except String Stream
  | "stdout" => .ok stdout
  | "stderr" => .ok stderr
  | other => .error ("unknown stream: " ++ other)

end Stream

/-- A span of time. -/
structure Duration where
  seconds : Nat
  nanoseconds : Nat

namespace Duration

def ofMillis (millis : Nat) : Duration :=
  ⟨millis / 1000, millis % 1000 * 1000000⟩

/-- Whole milliseconds. -/
def millis (d : Duration) : Nat :=
  d.seconds * 1000 + d.nanoseconds / 1000000

/-- Whole milliseconds as a signed word, the greatest one if there are too many. -/
def millisWord (d : Duration) : Int64 :=
  if d.millis < 2 ^ 63 then Int64.ofNat d.millis else Int64.maxValue

end Duration

/-- What the code of a worker can ask of its host. -/
structure HostApi (m : Type → Type) where
  read : Option String → m (Except ChannelError String)
  write : Stream → String → m (Except ChannelError Unit)
  sleep : Duration → m (Except ChannelError Unit)
  requestPermission : String → m (Except ChannelError Bool)
  notify : String → m (Except ChannelError Unit)
  callCustom : String → List Value → m (Except ChannelError Value)

/-- The host as called over a channel. An answer of another kind than the method's is an error. -/
def HostApi.over {m : Type → Type} [Monad m] (call : Target → List Value → m CallOutcome)
    (kind : Value → m String) : HostApi m where
  read echo := do
    match ← call (.method Method.read) (echo.map Value.str).toList with
    | .ok (.str line) => return .ok line
    | .ok v => return .error (.unexpectedReply Method.read "str" (← kind v))
    | .error e => return .error e
  write stream data := do
    return (← call (.method Method.write) [.str stream.text, .str data]).map fun _ => ()
  sleep d := do
    return (← call (.method Method.sleep) [.int d.millisWord]).map fun _ => ()
  requestPermission resource := do
    match ← call (.method Method.requestPermission) [.str resource] with
    | .ok (.bool granted) => return .ok granted
    | .ok v => return .error (.unexpectedReply Method.requestPermission "bool" (← kind v))
    | .error e => return .error e
  notify message := do
    return (← call (.method Method.notify) [.str message]).map fun _ => ()
  callCustom method args := call (.method method) args

end WorkerHost
