import WorkerHost.Hooks.Callback
import WorkerHost.Stream.Memory
/-!
A context of its own: a registry, a lifecycle and a shell whose streams are in memory.
-/

namespace WorkerHost

/-- A context without a channel. -/
structure LocalContext where
  shell : LocalShell
  registry : Registry Callback
  mentions : Mentions
  lifecycle : Lifecycle
  config : Value
  /-- what callbacks logged -/
  log : List String
  /-- what was shown to the user -/
  notes : List String

namespace LocalContext

/-- Runs a computation of the shell. -/
def inShell {α : Type} (x : StateM LocalShell α) : StateM LocalContext α := fun c =>
  let (a, shell) := x c.shell
  (a, { c with shell := shell })

/-- Registers or unregisters a hook that a script of a group mentions. -/
def change (add : Bool) (role : Role) (phase : Phase) (group : Nat) (spec : HookSpec) :
    StateM LocalContext (Except HookError Bool) := fun c =>
  let (changed, registry, mentions) := c.registry.change c.mentions add role phase group spec
  (changed, { c with registry := registry, mentions := mentions })

/-- Runs code in the shell, if the run is bound to it. -/
def execute (bound : Bool) (code : String) :
    StateM LocalContext (Option (Except InterpreterError Value)) := do
  if bound then return some (← inShell (LocalShell.run code)) else return none

/-- What callbacks are told and can do. -/
def scope (bound : Bool) (c : LocalContext) : CallbackScope (StateM LocalContext) where
  role := c.registry.role
  config := c.config
  hasWorker := false
  log text := modify fun c => { c with log := c.log ++ [text] }
  display v := do return (← get).shell.heap.display v
  field? v key := do return (← get).shell.heap.get? v key
  interpreter? := do
    let c ← get
    return if bound then some c.shell.shell.debug else none
  execute := execute bound
  stateText? run := do return some ((← get).lifecycle.line run)
  change := change

/-- What the lifecycle works with, for runs that are bound to the shell or to no interpreter. -/
def stage (bound : Bool) : Stage (StateM LocalContext) Callback where
  get := do return (← get).lifecycle
  isReady := do return (← get).lifecycle.ready
  modify f := modify fun c => { c with lifecycle := f c.lifecycle }
  callbacks phase := do return (← get).registry.callbacksOf phase
  code phase := do return (← get).registry.composed phase
  callbackName := Callback.name
  invoke phase run c := do (scope bound (← get)).invoke phase run c
  execute _ := execute bound
  notify text := modify fun c => { c with notes := c.notes ++ [text] }

end LocalContext
end WorkerHost
