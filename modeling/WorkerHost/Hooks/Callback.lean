import WorkerHost.Hooks.Registry
import WorkerHost.Lifecycle.Stage
/-!
Callbacks whose behaviour is data: a list of actions that are done in order, until one fails.
-/

namespace WorkerHost

mutual

/-- One thing that a callback does. -/
inductive Action where
  /-- writes a line to the log -/
  | log (text : String)
  /-- runs code in the bound interpreter -/
  | run (code : String)
  /-- fails, with the contexts of the error from the outermost in -/
  | fail (chain : List String)
  | panic
  /-- logs what the callback is told about the run -/
  | info
  /-- logs a field of the configuration -/
  | config (key : String)
  /-- logs the bound interpreter -/
  | interpreter
  /-- logs where the run is -/
  | state
  /-- changes the registry of the context -/
  | change (add : Bool) (role : Option Role) (phase : String) (hook : HookSpec)

/-- A hook as a script mentions it: code, or a callback by a key. -/
inductive HookSpec where
  | code (text : String)
  | callback (key : String) (name : Option String) (actions : List Action)

end

instance : Inhabited Action := ⟨.panic⟩
instance : Inhabited HookSpec := ⟨.code ""⟩

/-- A callback. Its identity is its number. -/
structure Callback where
  id : Nat
  name : String
  actions : List Action
  /-- the group of scripts in which its actions mention hooks -/
  group : Nat

instance : BEq Callback := ⟨fun a b => a.id == b.id⟩

/-- The callbacks that scripts have mentioned so far, by group and key. -/
structure Mentions where
  known : List ((Nat × String) × Callback)

namespace Mentions

def empty : Mentions := ⟨[]⟩

/-- The hook that a script mentions. The first mention of a key in a group makes the callback, and
later ones mean the same. -/
def hook (ms : Mentions) (group : Nat) : HookSpec → Hook Callback × Mentions
  | .code text => (.code text, ms)
  | .callback key name actions =>
    match ms.known.find? (·.1 == (group, key)) with
    | some (_, c) => (.callback c, ms)
    | none =>
      let c : Callback := ⟨ms.known.length, name.getD key, actions, group⟩
      (.callback c, ⟨((group, key), c) :: ms.known⟩)

end Mentions

/-- Registers or unregisters a hook that a script of a group mentions: whether that changed the
registry, and both afterwards. -/
def Registry.change (r : Registry Callback) (ms : Mentions) (add : Bool) (role : Role)
    (phase : Phase) (group : Nat) (spec : HookSpec) :
    Except HookError Bool × Registry Callback × Mentions :=
  let (hook, ms) := ms.hook group spec
  match if add then r.register role phase hook else r.unregister role phase hook with
  | .ok (changed, r) => (.ok changed, r, ms)
  | .error e => (.error e, r, ms)

/-- What a callback is told and can do. -/
structure CallbackScope (m : Type → Type) where
  role : Role
  config : Value
  hasWorker : Bool
  log : String → m Unit
  display : Value → m String
  field? : Value → String → m (Option Value)
  /-- the bound interpreter as shown in diagnostics -/
  interpreter? : m (Option String)
  execute : String → m (Option (Except InterpreterError Value))
  stateText? : RunDescriptor → m (Option String)
  change : Bool → Role → Phase → Nat → HookSpec → m (Except HookError Bool)

namespace CallbackScope
variable {m : Type → Type} [Monad m]

/-- The answer of a registration as a line of the log. -/
def answerText (r : Except HookError Bool) : String :=
  Json.Document.text (match r with
    | .ok b => .obj [("ok", .bool b)]
    | .error e => .obj [("error", .str e.name), ("message", .str e.message)])

/-- Does one action; the outcome is `done` if the callback goes on. -/
def perform (sc : CallbackScope m) (c : Callback) (run : RunDescriptor) :
    Action → m CallbackOutcome
  | .log text => do
    sc.log text
    return .done
  | .run code => do
    match ← sc.execute code with
    | none => return .failed "no interpreter"
    | some (.error e) => return .failed e.text
    | some (.ok v) => do
      sc.log ("= " ++ (← sc.display v))
      return .done
  | .fail chain => return .failed (": ".intercalate chain)
  | .panic => return .panicked
  | .info => do
    let hasInterpreter := (← sc.interpreter?).isSome
    sc.log ("run=" ++ toString run.id ++ " source=" ++ run.source ++ " mode=" ++ run.mode.text ++
      " interp=" ++ toString hasInterpreter ++ " worker=" ++ toString sc.hasWorker)
    return .done
  | .config key => do
    match ← sc.field? sc.config key with
    | some v => do sc.log (key ++ "=" ++ (← sc.display v))
    | none => sc.log (key ++ "=<none>")
    return .done
  | .interpreter => do
    sc.log ((← sc.interpreter?).getD "none")
    return .done
  | .state => do
    match ← sc.stateText? run with
    | some text => sc.log text
    | none => pure ()
    return .done
  | .change add role phase hook => do
    let answer ←
      match Phase.ofText phase with
      | .error e => pure (.error e)
      | .ok p => sc.change add (role.getD sc.role) p c.group hook
    sc.log (answerText answer)
    return .done

/-- Does actions until one does not succeed. -/
def performAll (sc : CallbackScope m) (c : Callback) (run : RunDescriptor) :
    List Action → m CallbackOutcome
  | [] => return .done
  | a :: rest => do
    match ← sc.perform c run a with
    | .done => performAll sc c run rest
    | outcome => return outcome

/-- Calls a callback: it logs its name and place, then does its actions. -/
def invoke (sc : CallbackScope m) (phase : Phase) (run : RunDescriptor) (c : Callback) :
    m CallbackOutcome := do
  sc.log (c.name ++ "@" ++ sc.role.text ++ ":" ++ phase.text)
  sc.performAll c run c.actions

end CallbackScope

/-- Where a run of a lifecycle is, as a line of the log. -/
def Lifecycle.line (l : Lifecycle) (run : RunDescriptor) : String :=
  "state=" ++ l.stateText ++ " run=" ++ ((l.runState? run).map RunState.text).getD "none" ++
    " active=" ++ toString l.activeRuns

end WorkerHost
