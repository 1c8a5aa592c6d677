import WorkerHost.Channel.Api
import WorkerHost.Stream.Sink
/-!
The standard streams of a worker: output, input and notifications, each by calls of its host.
-/

namespace WorkerHost
variable {m : Type → Type} [Monad m]

/-- A line read by the host. An end of input there is one here. -/
def HostApi.readLine (api : HostApi m) (prompt : Option String) :
    m (Except StreamError (Option String)) := do
  match ← api.read prompt with
  | .ok line => return .ok (some line)
  | .error (.remote ⟨"EOFError", _⟩) => return .ok none
  | .error e => return .error (StreamError.ofChannel e)

/-- A message shown by the host. One that does not get through is lost. -/
def HostApi.tell (api : HostApi m) (message : String) : m Unit := do
  let _ ← api.notify message

/-- A host that answers from a script, one entry for each call, and keeps what it was asked. An
entry is a failure or a line. -/
structure ScriptedHost where
  script : List (Option (Except ChannelError String))
  writes : List (Stream × String)
  notes : List String
  prompts : List (Option String)

namespace ScriptedHost

/-- The entry for the next call: the failure, or the line if there is one. -/
def next : StateM ScriptedHost (Except ChannelError (Option String)) := fun h =>
  let entry := h.script.head?.join
  (match entry with
    | some (.error e) => .error e
    | some (.ok line) => .ok (some line)
    | none => .ok none,
    { h with script := h.script.tail })

/-- The host as an interface. -/
def api : HostApi (StateM ScriptedHost) where
  read prompt := do
    modify fun h => { h with prompts := h.prompts ++ [prompt] }
    return (← next).map (·.getD "")
  write stream data := do
    match ← next with
    | .error e => return .error e
    | .ok _ => do
      modify fun h => { h with writes := h.writes ++ [(stream, data)] }
      return .ok ()
  sleep _ := return .ok ()
  requestPermission _ := return .ok false
  notify message := do
    match ← next with
    | .error e => return .error e
    | .ok _ => do
      modify fun h => { h with notes := h.notes ++ [message] }
      return .ok ()
  callCustom _ _ := return .ok .null

end ScriptedHost
end WorkerHost
