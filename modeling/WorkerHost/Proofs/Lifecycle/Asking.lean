import WorkerHost.Proofs.Lifecycle.Modes
import WorkerHost.Proofs.Protocol

/-!
# What a lifecycle asks of its surroundings

`Stage.asking` is the stage that leaves everything to its surroundings: each of its operations is a
question. A run on it is a tree of questions, in which nothing is said about other runs, nor about
what callbacks and interpreters do.

Most parts of a run ask no questions but such as leave the lifecycle alone, and only about phases of
their own, `StageAsk.Still`.
-/

namespace WorkerHost
variable {C : Type}

/-- What a lifecycle asks of its surroundings. -/
inductive StageAsk (C : Type) where
  | get
  | isReady
  | modify (f : Lifecycle → Lifecycle)
  | callbacks (phase : Phase)
  | code (phase : Phase)
  | invoke (phase : Phase) (run : RunDescriptor) (c : C)
  | execute (mode : RunMode) (code : String)
  | notify (text : String)
  /-- what the body comes to that the phases are around -/
  | body

namespace StageAsk

/-- The answers to a question. -/
abbrev Answer : StageAsk C → Type
  | get => Lifecycle
  | isReady => Bool
  | modify _ | notify _ => Unit
  | callbacks _ => List C
  | code _ => String
  | invoke .. => CallbackOutcome
  | execute .. => Option (Except InterpreterError Value)
  | body => Except RunError Value

lemma nonempty_answer (q : StageAsk C) : Nonempty q.Answer := by
  cases q with
  | get => exact ⟨.new .callbacksFirst⟩
  | isReady => exact ⟨false⟩
  | modify f | notify text => exact ⟨()⟩
  | callbacks phase => exact ⟨[]⟩
  | code phase => exact ⟨""⟩
  | invoke phase run c => exact ⟨.done⟩
  | execute mode code => exact ⟨none⟩
  | body => exact ⟨.ok .null⟩

/-- The lifecycle is left alone, and phases are of some kind. -/
def Still (kind : Phase → Prop) : StageAsk C → Prop
  | modify _ => False
  | callbacks phase | code phase | invoke phase _ _ => kind phase
  | get | isReady | execute .. | notify _ | body => True

end StageAsk

/-- A question of a lifecycle and the answer to it. -/
abbrev StageExchange (C : Type) := (q : StageAsk C) × q.Answer

/-- What an exchange makes of a lifecycle. -/
def StageExchange.change (e : StageExchange C) (l : Lifecycle) : Lifecycle :=
  match e.1 with
  | .modify f => f l
  | _ => l

/-- Computations of a lifecycle whose surroundings are left open. -/
abbrev StageTask (C : Type) := Task Unit (StageAsk C) StageAsk.Answer

/-- What is left of such a computation. -/
abbrev StageStep (C : Type) := Step Unit (StageAsk C) StageAsk.Answer

namespace StageTask

def ask (q : StageAsk C) : StageTask C q.Answer := Task.ask q

end StageTask

namespace Stage

/-- The stage that leaves everything to its surroundings. -/
def asking (name : C → String) : Stage (StageTask C) C where
  get := StageTask.ask .get
  isReady := StageTask.ask .isReady
  modify f := StageTask.ask (.modify f)
  callbacks phase := StageTask.ask (.callbacks phase)
  code phase := StageTask.ask (.code phase)
  callbackName := name
  invoke phase run c := StageTask.ask (.invoke phase run c)
  execute mode code := StageTask.ask (.execute mode code)
  notify text := StageTask.ask (.notify text)

namespace Asking
variable {name : C → String} {kind : Phase → Prop} {phase : Phase} {mode : RunMode}
  {run : RunDescriptor}

lemma asks_notify (text : String) : ((asking name).notify text).Asks (StageAsk.Still kind) :=
  Task.Asks.ask trivial

lemma asks_report : ∀ e, ((asking name).report e).Asks (StageAsk.Still kind)
  | .remote _ => .pure ()
  | .hookCode .. | .execution _ | .transport _ => asks_notify _

lemma asks_reportFailure :
    ∀ outcome, ((asking name).reportFailure outcome).Asks (StageAsk.Still kind)
  | .error e => asks_report e
  | .ok _ => .pure ()

lemma asks_executeUser (code : String) :
    ((asking name).executeUser mode code).Asks (StageAsk.Still kind) := by
  refine .bind (.ask trivial) fun outcome => ?_
  cases outcome <;> exact .pure _

section
variable (hphase : kind phase)
include hphase

lemma asks_callAll (cs : List C) :
    ((asking name).callAll phase run cs).Asks (StageAsk.Still kind) := by
  induction cs with
  | nil => exact .pure 0
  | cons c rest ih =>
    refine .bind (.ask hphase) fun outcome => ?_
    split
    · exact ih
    · exact .bind (asks_notify _) fun _ => .bind ih fun _ => .pure _

lemma asks_fire : ((asking name).fire phase run).Asks (StageAsk.Still kind) :=
  .bind (.ask hphase) fun cs => asks_callAll hphase cs

lemma asks_executeCode : ((asking name).executeCode mode phase).Asks (StageAsk.Still kind) := by
  rw [Stage.executeCode_eq]
  refine .bind (.ask hphase) fun code => ?_
  split
  · exact .pure _
  · refine .bind (.ask trivial) fun outcome => ?_
    split
    · exact .bind (asks_report _) fun _ => .pure _
    · exact .pure _

end

lemma asks_afterPhases (hcalls : kind mode.phases.after) (hcode : kind mode.phases.codeAfter) :
    ((asking name).afterPhases mode run).Asks (StageAsk.Still kind) := by
  rw [Stage.afterPhases_eq]
  refine .bind (.ask trivial) fun l => ?_
  cases l.order with
  | callbacksFirst => exact .bind (asks_fire hcalls) fun _ => asks_executeCode hcode
  | codeFirst =>
    exact .bind (asks_executeCode hcode) fun _ => .bind (asks_fire hcalls) fun _ => .pure _

end Asking
end Stage
end WorkerHost
