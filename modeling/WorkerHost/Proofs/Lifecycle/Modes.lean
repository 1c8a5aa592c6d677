import WorkerHost.Lifecycle.Stage

/-!
# The two drivers of a lifecycle

Runs that block and runs that do not have a driver each. Here the two are put into one form, in
which nothing but the gate, the phases and the way to execute code depend on the mode:
`Stage.beforeRun_eq`, `Stage.afterPhases_eq`, `Stage.afterRun_eq`, `Stage.around_eq` and
`Stage.run_eq`. What holds of runs of either mode is proved about this form.
-/

namespace WorkerHost
namespace Stage
variable {m : Type → Type} [Monad m] {C : Type} (st : Stage m C) (mode : RunMode)

/-- The user's code in the bound interpreter. -/
def executeUser (code : String) : m (Except RunError Value) := do
  match ← st.execute mode code with
  | some outcome => return outcome.mapError .execution
  | none => return .error noInterpreter

theorem executeCode_eq (phase : Phase) : st.executeCode mode phase = (do
    let code ← st.code phase
    if code.isEmpty then return .ok ()
    else
      match ← st.execute mode code with
      | some (.error e) => st.codeFailed phase e
      | _ => return .ok ()) := by
  cases mode <;> rfl

theorem beforeRun_eq (run : RunDescriptor) : st.beforeRun mode run = (do
    st.gate mode run
    st.modify (·.enter run .beforeRun)
    match ← st.executeCode mode mode.phases.codeBefore with
    | .error e => do
      st.modify (·.leave run)
      return .error e
    | .ok () => do
      let _ ← st.fire mode.phases.before run
      st.modify (·.enter run .executing)
      return .ok ()) := by
  cases mode <;> rfl

theorem afterPhases_eq (run : RunDescriptor) : st.afterPhases mode run = (do
    match (← st.get).order with
    | .callbacksFirst => do
      let _ ← st.fire mode.phases.after run
      st.executeCode mode mode.phases.codeAfter
    | .codeFirst => do
      let code ← st.executeCode mode mode.phases.codeAfter
      let _ ← st.fire mode.phases.after run
      return code) := by
  cases mode <;> rfl

theorem afterRun_eq (run : RunDescriptor) (outcome : Except RunError Value) :
    st.afterRun mode run outcome = (do
      st.modify (·.enter run .afterRun)
      let code ← st.afterPhases mode run
      st.modify (·.leave run)
      return resultAfter outcome code) := by
  cases mode <;> rfl

theorem around_eq (run : RunDescriptor) (body : m (Except RunError Value)) :
    st.around mode run body = (do
      match ← st.beforeRun mode run with
      | .error e => return .error e
      | .ok () => do
        let outcome ← body
        st.reportFailure outcome
        st.afterRun mode run outcome) := by
  cases mode <;> rfl

theorem run_eq (run : RunDescriptor) (code : String) :
    st.run mode run code = st.around mode run (st.executeUser mode code) := by
  cases mode <;> rfl

end Stage
end WorkerHost
