import Mathlib.Tactic.Common
import WorkerHost.Hooks.Registry
import WorkerHost.Lifecycle.Stage

/-!
# Traces of runs

What a run does to its surroundings is to call callbacks, to execute code and to notify the user.
`Behaviour` leaves open how callbacks and the interpreter behave: they may succeed, fail or panic,
and change the registry and whatever else there is. `Behaviour.stage` is the stage of such
surroundings that records every event in order.

`Behaviour.RunTrace` says, part by part, what the trace of a run has to be: which events, in which
order, and which result. That a run through the stage has just that trace is shown in
`WorkerHost.Proofs.Lifecycle.Run`.
-/

namespace WorkerHost

/-- What can be seen of a run. -/
inductive RunEvent (C : Type) where
  /-- a callback of a phase was called, and how it ended -/
  | called (phase : Phase) (c : C) (outcome : CallbackOutcome)
  /-- code was run in the bound interpreter, and how it ended -/
  | executed (code : String) (outcome : Except InterpreterError Value)
  /-- a text was shown to the user -/
  | notified (text : String)

/-- How callbacks and the interpreter behave, which can depend on the registry and on a world of
any kind, and change both. Callbacks also see where the runs are. -/
structure Behaviour (C ω : Type) where
  callbackName : C → String
  call : Phase → RunDescriptor → C → Lifecycle → Registry C × ω →
    CallbackOutcome × Registry C × ω
  /-- the interpreter that the run is bound to, if there is one -/
  interpreter : Option (RunMode → String → Registry C × ω →
    Except InterpreterError Value × Registry C × ω)

/-- A lifecycle among its surroundings, and all events so far. -/
structure Recorded (C ω : Type) where
  lifecycle : Lifecycle
  context : Registry C × ω
  trace : List (RunEvent C)

namespace Behaviour
variable {C ω : Type}

/-- The stage of a behaviour, which records every event. -/
def stage (b : Behaviour C ω) : Stage (StateM (Recorded C ω)) C where
  get := do return (← get).lifecycle
  isReady := do return (← get).lifecycle.ready
  modify f := modify fun t => { t with lifecycle := f t.lifecycle }
  callbacks phase := do return (← get).context.1.callbacksOf phase
  code phase := do return (← get).context.1.composed phase
  callbackName := b.callbackName
  invoke phase run c := fun t =>
    let (outcome, context) := b.call phase run c t.lifecycle t.context
    (outcome, ⟨t.lifecycle, context, t.trace ++ [.called phase c outcome]⟩)
  execute mode code := fun t =>
    match b.interpreter with
    | none => (none, t)
    | some execute =>
      let (outcome, context) := execute mode code t.context
      (some outcome, ⟨t.lifecycle, context, t.trace ++ [.executed code outcome]⟩)
  notify text := modify fun t => { t with trace := t.trace ++ [.notified text] }

/-! ## The parts of a trace -/

variable (b : Behaviour C ω)

/-- What follows a call: one notification if the callback failed or panicked, else nothing. -/
def complaints (phase : Phase) (c : C) : CallbackOutcome → List (RunEvent C)
  | .done => []
  | .failed text =>
    [.notified (phase.text ++ " callback '" ++ b.callbackName c ++ "' failed: " ++ text)]
  | .panicked => [.notified (phase.text ++ " callback '" ++ b.callbackName c ++ "' panicked")]

/-- Callbacks are called once each, in the order of the list, whatever becomes of the others. -/
inductive Calls (phase : Phase) (run : RunDescriptor) (l : Lifecycle) :
    List C → Registry C × ω → List (RunEvent C) → Registry C × ω → Prop
  | nil (x : Registry C × ω) : Calls phase run l [] x [] x
  | cons {c : C} {rest : List C} {x x₁ x₂ : Registry C × ω} {outcome : CallbackOutcome}
      {es : List (RunEvent C)} (hcall : b.call phase run c l x = (outcome, x₁))
      (hrest : Calls phase run l rest x₁ es x₂) :
      Calls phase run l (c :: rest) x
        (.called phase c outcome :: (b.complaints phase c outcome ++ es)) x₂

/-- A phase calls the callbacks that are registered for it as it starts, in the order of
registration. -/
def Fires (phase : Phase) (run : RunDescriptor) (l : Lifecycle) (x : Registry C × ω) :
    List (RunEvent C) → Registry C × ω → Prop :=
  b.Calls phase run l (x.1.callbacksOf phase) x

/-- The phase `onReady` comes first, unless it is over. -/
inductive Readies (run : RunDescriptor) (l : Lifecycle) (x : Registry C × ω) :
    List (RunEvent C) → Registry C × ω → Prop
  | already (hready : l.ready = true) : Readies run l x [] x
  | fires {es : List (RunEvent C)} {x₁ : Registry C × ω} (hready : l.ready = false)
      (hcalls : b.Fires .onReady run l x es x₁) : Readies run l x es x₁

/-- The code of a phase is executed, or skipped if there is none or no interpreter. A failure is
notified once and handed on. -/
inductive RunsCode (mode : RunMode) (phase : Phase) (x : Registry C × ω) :
    List (RunEvent C) → Except RunError Unit → Registry C × ω → Prop
  | empty (hcode : (x.1.composed phase).isEmpty = true) : RunsCode mode phase x [] (.ok ()) x
  | unbound (hbound : b.interpreter = none) : RunsCode mode phase x [] (.ok ()) x
  | done {execute} {v : Value} {x₁ : Registry C × ω}
      (hcode : (x.1.composed phase).isEmpty = false) (hbound : b.interpreter = some execute)
      (hrun : execute mode (x.1.composed phase) x = (.ok v, x₁)) :
      RunsCode mode phase x [.executed (x.1.composed phase) (.ok v)] (.ok ()) x₁
  | failed {execute} {e : InterpreterError} {x₁ : Registry C × ω}
      (hcode : (x.1.composed phase).isEmpty = false) (hbound : b.interpreter = some execute)
      (hrun : execute mode (x.1.composed phase) x = (.error e, x₁)) :
      RunsCode mode phase x
        [.executed (x.1.composed phase) (.error e), .notified (RunError.hookCode phase e).message]
        (.error (.hookCode phase e)) x₁

/-- The user's code is executed; that there is no interpreter for it is a failure like any other. A
failure is notified once. -/
inductive RunsUser (mode : RunMode) (code : String) (x : Registry C × ω) :
    List (RunEvent C) → Except RunError Value → Registry C × ω → Prop
  | unbound (hbound : b.interpreter = none) :
      RunsUser mode code x [.notified Stage.noInterpreter.message] (.error Stage.noInterpreter) x
  | done {execute} {v : Value} {x₁ : Registry C × ω} (hbound : b.interpreter = some execute)
      (hrun : execute mode code x = (.ok v, x₁)) :
      RunsUser mode code x [.executed code (.ok v)] (.ok v) x₁
  | failed {execute} {e : InterpreterError} {x₁ : Registry C × ω}
      (hbound : b.interpreter = some execute) (hrun : execute mode code x = (.error e, x₁)) :
      RunsUser mode code x [.executed code (.error e), .notified (RunError.execution e).message]
        (.error (.execution e)) x₁

/-- Both after-run phases happen in the configured order, each whatever the other did. -/
inductive RunsAfter (mode : RunMode) (run : RunDescriptor) (l : Lifecycle) (x : Registry C × ω) :
    List (RunEvent C) → Except RunError Unit → Registry C × ω → Prop
  | callbacksFirst {calls code : List (RunEvent C)} {result : Except RunError Unit}
      {x₁ x₂ : Registry C × ω} (horder : l.order = .callbacksFirst)
      (hcalls : b.Fires mode.phases.after run l x calls x₁)
      (hcode : b.RunsCode mode mode.phases.codeAfter x₁ code result x₂) :
      RunsAfter mode run l x (calls ++ code) result x₂
  | codeFirst {calls code : List (RunEvent C)} {result : Except RunError Unit}
      {x₁ x₂ : Registry C × ω} (horder : l.order = .codeFirst)
      (hcode : b.RunsCode mode mode.phases.codeAfter x code result x₁)
      (hcalls : b.Fires mode.phases.after run l x₁ calls x₂) :
      RunsAfter mode run l x (code ++ calls) result x₂

/-- The result of a run: the failure of the user's code if there is one, else that of the code after
the run, else the value. -/
def settle : Except RunError Value → Except RunError Unit → Except RunError Value
  | .error e, _ => .error e
  | .ok _, .error e => .error e
  | .ok v, .ok () => .ok v

/-- A lifecycle during a run, with the gate of `onReady` passed. -/
def during (l : Lifecycle) (run : RunDescriptor) (s : RunState) : Lifecycle :=
  { l with ready := true }.enter run s

/-- A lifecycle when a run is over. -/
def finished (l : Lifecycle) (run : RunDescriptor) : Lifecycle :=
  { l with ready := true }.leave run

/-- The trace and the result of a run. If the code before the run fails, nothing follows it. -/
inductive RunTrace (mode : RunMode) (run : RunDescriptor) (code : String) (l : Lifecycle)
    (x : Registry C × ω) : List (RunEvent C) → Except RunError Value → Registry C × ω → Prop
  | aborted {ready before : List (RunEvent C)} {e : InterpreterError} {x₁ x₂ : Registry C × ω}
      (hready : b.Readies run l x ready x₁)
      (hbefore : b.RunsCode mode mode.phases.codeBefore x₁ before
        (.error (.hookCode mode.phases.codeBefore e)) x₂) :
      RunTrace mode run code l x (ready ++ before) (.error (.hookCode mode.phases.codeBefore e)) x₂
  | completed {ready before calls user after : List (RunEvent C)}
      {outcome : Except RunError Value} {result : Except RunError Unit}
      {x₁ x₂ x₃ x₄ x₅ : Registry C × ω} (hready : b.Readies run l x ready x₁)
      (hbefore : b.RunsCode mode mode.phases.codeBefore x₁ before (.ok ()) x₂)
      (hcalls : b.Fires mode.phases.before run (during l run .beforeRun) x₂ calls x₃)
      (huser : b.RunsUser mode code x₃ user outcome x₄)
      (hafter : b.RunsAfter mode run (during l run .afterRun) x₄ after result x₅) :
      RunTrace mode run code l x (ready ++ before ++ calls ++ user ++ after)
        (settle outcome result) x₅

end Behaviour
end WorkerHost
