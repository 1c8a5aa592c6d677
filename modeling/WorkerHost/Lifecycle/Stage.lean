import WorkerHost.Lifecycle.Basic
/-!
The phases around a run. Before a run the code of the phase is executed, then its callbacks are
called; after it, the other way round unless configured otherwise. The phase `onReady` comes once,
before everything else. A failing callback is reported and changes nothing else; failing code ends
the run.

There are two drivers, one for callers that block and one for those that do not.

What callbacks and interpreters do is open: a `Stage` says how to call the ones and run the others,
in any monad.
-/

namespace WorkerHost

/-- How a callback ended. -/
inductive CallbackOutcome where
  | done
  | failed (text : String)
  | panicked
  deriving DecidableEq

/-- What a lifecycle works with. -/
structure Stage (m : Type → Type) (C : Type) where
  get : m Lifecycle
  /-- whether the phase `onReady` is over, without waiting for it -/
  isReady : m Bool
  modify : (Lifecycle → Lifecycle) → m Unit
  /-- the callbacks of a phase at this moment -/
  callbacks : Phase → m (List C)
  /-- the code of a phase at this moment -/
  code : Phase → m String
  callbackName : C → String
  invoke : Phase → RunDescriptor → C → m CallbackOutcome
  /-- runs code in the bound interpreter, if there is one -/
  execute : RunMode → String → m (Option (Except InterpreterError Value))
  notify : String → m Unit

namespace Stage
variable {m : Type → Type} [Monad m] {C : Type}

/-- Shows an error to the user, unless the worker has already done so. -/
def report (st : Stage m C) : RunError → m Unit
  | .remote _ => pure ()
  | e => st.notify e.message

/-- What is told about a callback that did not succeed. -/
def complaint (phase : Phase) (name : String) : CallbackOutcome → Option String
  | .done => none
  | .failed text => some (phase.text ++ " callback '" ++ name ++ "' failed: " ++ text)
  | .panicked => some (phase.text ++ " callback '" ++ name ++ "' panicked")

/-- Calls callbacks in turn; the number of those that did not succeed. -/
def callAll (st : Stage m C) (phase : Phase) (run : RunDescriptor) : List C → m Nat
  | [] => pure 0
  | c :: rest => do
    match complaint phase (st.callbackName c) (← st.invoke phase run c) with
    | none => callAll st phase run rest
    | some text => do
      st.notify text
      return (← callAll st phase run rest) + 1

/-- Calls the callbacks that a phase has as it starts. -/
def fire (st : Stage m C) (phase : Phase) (run : RunDescriptor) : m Nat := do
  st.callAll phase run (← st.callbacks phase)

/-! ## The gate -/

/-- The phase `onReady`, once. Who comes while another one is at it waits. -/
def ensureReadyAsync (st : Stage m C) (run : RunDescriptor) : m Unit := do
  if !(← st.get).ready then
    let _ ← st.fire .onReady run
    st.modify fun l => { l with ready := true }

/-- The same for callers that block. They look first whether it is over. -/
def ensureReady (st : Stage m C) (run : RunDescriptor) : m Unit := do
  if ← st.isReady then return ()
  else st.ensureReadyAsync run

/-! ## Code -/

/-- The code of a phase failed. -/
def codeFailed (st : Stage m C) (phase : Phase) (e : InterpreterError) :
    m (Except RunError Unit) := do
  let err := RunError.hookCode phase e
  st.report err
  return .error err

/-- Executes the code of a phase. Without code or without an interpreter nothing happens. -/
def executeCodeSync (st : Stage m C) (phase : Phase) : m (Except RunError Unit) := do
  let code ← st.code phase
  if code.isEmpty then return .ok ()
  else
    match ← st.execute .sync code with
    | some (.error e) => st.codeFailed phase e
    | _ => return .ok ()

def executeCodeAsync (st : Stage m C) (phase : Phase) : m (Except RunError Unit) := do
  let code ← st.code phase
  if code.isEmpty then return .ok ()
  else
    match ← st.execute .async code with
    | some (.error e) => st.codeFailed phase e
    | _ => return .ok ()

/-- Shows a failure to the user. -/
def reportFailure (st : Stage m C) : Except RunError Value → m Unit
  | .error e => st.report e
  | .ok _ => pure ()

/-- The failure of a run that no interpreter is bound to. -/
def noInterpreter : RunError :=
  .execution ⟨"RuntimeError", "no interpreter bound to this run"⟩

/-- The result of a run after the code of the last phase, whose failure only replaces a success. -/
def resultAfter (outcome : Except RunError Value) (code : Except RunError Unit) :
    Except RunError Value := do
  let v ← outcome
  code
  return v

/-! ## Runs that block -/

/-- Everything up to the user's code. -/
def beforeRunSync (st : Stage m C) (run : RunDescriptor) : m (Except RunError Unit) := do
  st.ensureReady run
  st.modify (·.enter run .beforeRun)
  match ← st.executeCodeSync RunPhases.sync.codeBefore with
  | .error e => do
    st.modify (·.leave run)
    return .error e
  | .ok () => do
    let _ ← st.fire RunPhases.sync.before run
    st.modify (·.enter run .executing)
    return .ok ()

/-- Both after-run phases, each of them whatever the other does. -/
def afterPhasesSync (st : Stage m C) (run : RunDescriptor) : m (Except RunError Unit) := do
  match (← st.get).order with
  | .callbacksFirst => do
    let _ ← st.fire RunPhases.sync.after run
    st.executeCodeSync RunPhases.sync.codeAfter
  | .codeFirst => do
    let code ← st.executeCodeSync RunPhases.sync.codeAfter
    let _ ← st.fire RunPhases.sync.after run
    return code

/-- Everything after the user's code. -/
def afterRunSync (st : Stage m C) (run : RunDescriptor) (outcome : Except RunError Value) :
    m (Except RunError Value) := do
  st.modify (·.enter run .afterRun)
  let code ← st.afterPhasesSync run
  st.modify (·.leave run)
  return resultAfter outcome code

/-- The phases around a body. -/
def aroundSync (st : Stage m C) (run : RunDescriptor) (body : m (Except RunError Value)) :
    m (Except RunError Value) := do
  match ← st.beforeRunSync run with
  | .error e => return .error e
  | .ok () => do
    let outcome ← body
    st.reportFailure outcome
    st.afterRunSync run outcome

/-- Runs code through the whole lifecycle. -/
def runSync (st : Stage m C) (run : RunDescriptor) (code : String) : m (Except RunError Value) :=
  st.aroundSync run do
    match ← st.execute .sync code with
    | some outcome => return outcome.mapError .execution
    | none => return .error noInterpreter

/-! ## Runs that do not block -/

def beforeRunAsync (st : Stage m C) (run : RunDescriptor) : m (Except RunError Unit) := do
  st.ensureReadyAsync run
  st.modify (·.enter run .beforeRun)
  match ← st.executeCodeAsync RunPhases.async.codeBefore with
  | .error e => do
    st.modify (·.leave run)
    return .error e
  | .ok () => do
    let _ ← st.fire RunPhases.async.before run
    st.modify (·.enter run .executing)
    return .ok ()

def afterPhasesAsync (st : Stage m C) (run : RunDescriptor) : m (Except RunError Unit) := do
  match (← st.get).order with
  | .callbacksFirst => do
    let _ ← st.fire RunPhases.async.after run
    st.executeCodeAsync RunPhases.async.codeAfter
  | .codeFirst => do
    let code ← st.executeCodeAsync RunPhases.async.codeAfter
    let _ ← st.fire RunPhases.async.after run
    return code

def afterRunAsync (st : Stage m C) (run : RunDescriptor) (outcome : Except RunError Value) :
    m (Except RunError Value) := do
  st.modify (·.enter run .afterRun)
  let code ← st.afterPhasesAsync run
  st.modify (·.leave run)
  return resultAfter outcome code

def aroundAsync (st : Stage m C) (run : RunDescriptor) (body : m (Except RunError Value)) :
    m (Except RunError Value) := do
  match ← st.beforeRunAsync run with
  | .error e => return .error e
  | .ok () => do
    let outcome ← body
    st.reportFailure outcome
    st.afterRunAsync run outcome

def runAsync (st : Stage m C) (run : RunDescriptor) (code : String) : m (Except RunError Value) :=
  st.aroundAsync run do
    match ← st.execute .async code with
    | some outcome => return outcome.mapError .execution
    | none => return .error noInterpreter

/-! ## Runs of a mode -/

/-- The gate of the runs of a mode. -/
def gate (st : Stage m C) : RunMode → RunDescriptor → m Unit
  | .sync => st.ensureReady
  | .async => st.ensureReadyAsync

def executeCode (st : Stage m C) : RunMode → Phase → m (Except RunError Unit)
  | .sync => st.executeCodeSync
  | .async => st.executeCodeAsync

def beforeRun (st : Stage m C) : RunMode → RunDescriptor → m (Except RunError Unit)
  | .sync => st.beforeRunSync
  | .async => st.beforeRunAsync

def afterPhases (st : Stage m C) : RunMode → RunDescriptor → m (Except RunError Unit)
  | .sync => st.afterPhasesSync
  | .async => st.afterPhasesAsync

def afterRun (st : Stage m C) :
    RunMode → RunDescriptor → Except RunError Value → m (Except RunError Value)
  | .sync => st.afterRunSync
  | .async => st.afterRunAsync

def around (st : Stage m C) :
    RunMode → RunDescriptor → m (Except RunError Value) → m (Except RunError Value)
  | .sync => st.aroundSync
  | .async => st.aroundAsync

def run (st : Stage m C) : RunMode → RunDescriptor → String → m (Except RunError Value)
  | .sync => st.runSync
  | .async => st.runAsync

end Stage
end WorkerHost
