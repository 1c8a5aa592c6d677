import WorkerHost.Environment.State
/-!
Runs in the contexts of an environment: what the lifecycle of a context works with, whatever its
runs are bound to.
-/

namespace WorkerHost

/-- What the runs of a context are bound to. -/
structure Binding (m : Type → Type) where
  context : ContextId
  /-- the configuration that callbacks are given -/
  config : Value
  /-- whether callbacks are given a worker to call -/
  hasWorker : Bool
  /-- the bound interpreter as shown in diagnostics -/
  interpreter? : m (Option String)
  /-- runs code in the bound interpreter, if there is one -/
  execute : String → m (Option (Except InterpreterError Value))
  notify : String → m Unit

namespace Binding
variable {m : Type → Type} [Monad m] [MonadStateOf EnvironmentState m]

/-- A view of the state. -/
def view {α : Type} (f : EnvironmentState → α) : m α := do
  return f (← getThe EnvironmentState)

/-- What a callback is told and can do. -/
def scope (b : Binding m) (role : Role) : CallbackScope m where
  role := role
  config := b.config
  hasWorker := b.hasWorker
  log text := modifyThe EnvironmentState fun s => { s with log := s.log ++ [text] }
  display v := view (·.heap.display v)
  field? v key := view (·.heap.get? v key)
  interpreter? := b.interpreter?
  execute := b.execute
  stateText? _ := return none
  change add role phase group spec :=
    modifyGetThe EnvironmentState (·.changeHook b.context add role phase group spec)

/-- What the lifecycle of the context works with. -/
def stage (b : Binding m) : Stage m Callback where
  get := view fun s => (s.context b.context).lifecycle
  isReady := view fun s => (s.context b.context).lifecycle.ready
  modify f := modifyThe EnvironmentState
    (·.updateContext (fun c => { c with lifecycle := f c.lifecycle }) b.context)
  callbacks phase := view fun s => (s.context b.context).registry.callbacksOf phase
  code phase := view fun s => (s.context b.context).registry.composed phase
  callbackName := Callback.name
  invoke phase run c := do
    let role ← view fun s => (s.context b.context).registry.role
    (b.scope role).invoke phase run c
  execute _ := b.execute
  notify := b.notify

/-- A descriptor for a run of the context. -/
def descriptor (b : Binding m) (source : String) (mode : RunMode) : m RunDescriptor :=
  modifyGetThe EnvironmentState (·.descriptor b.context source mode)

end Binding
end WorkerHost
