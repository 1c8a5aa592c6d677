import WorkerHost.Hooks.Callback
import WorkerHost.Proofs.Lifecycle.Modes
import WorkerHost.Proofs.Task

/-!
# Lifecycles in different surroundings

A callback knows of its surroundings only what it is told and can do, and a lifecycle only its
stage. If these are related part by part, so are callbacks, `CallbackScope.Lockstep.invoke`, and
whole runs, `Stage.Lockstep.wholeRun`. A run is also related to another one as soon as its parts
are, `Stage.PartsLockstep.around`.
-/

namespace WorkerHost
variable {m n : Type → Type} [Monad m] [Monad n] {R : MonadRel m n}

/-! ## Callbacks -/

/-- What a callback is told and can do here is related to what it is told and can do there. -/
structure CallbackScope.Lockstep (R : MonadRel m n) (sc : CallbackScope m) (sc' : CallbackScope n) :
    Prop where
  role : sc.role = sc'.role
  config : sc.config = sc'.config
  hasWorker : sc.hasWorker = sc'.hasWorker
  log (text : String) : R.rel (sc.log text) (sc'.log text)
  display (v : Value) : R.rel (sc.display v) (sc'.display v)
  field? (v : Value) (key : String) : R.rel (sc.field? v key) (sc'.field? v key)
  interpreter? : R.rel sc.interpreter? sc'.interpreter?
  execute (code : String) : R.rel (sc.execute code) (sc'.execute code)
  stateText? (run : RunDescriptor) : R.rel (sc.stateText? run) (sc'.stateText? run)
  change (add : Bool) (role : Role) (phase : Phase) (group : Nat) (spec : HookSpec) :
    R.rel (sc.change add role phase group spec) (sc'.change add role phase group spec)

namespace CallbackScope.Lockstep
variable {sc : CallbackScope m} {sc' : CallbackScope n} (h : Lockstep R sc sc') {c : Callback}
  {run : RunDescriptor}
include h

lemma perform (a : Action) : R.rel (sc.perform c run a) (sc'.perform c run a) := by
  cases a with
  | log text => exact R.bind (h.log text) fun _ => R.pure _
  | run code =>
    refine R.bind (h.execute code) fun outcome => ?_
    split
    · exact R.pure _
    · exact R.pure _
    · exact R.bind (h.display _) fun _ => R.bind (h.log _) fun _ => R.pure _
  | fail chain => exact R.pure _
  | panic => exact R.pure _
  | info =>
    unfold CallbackScope.perform
    rw [h.hasWorker]
    exact R.bind h.interpreter? fun _ => R.bind (h.log _) fun _ => R.pure _
  | config key =>
    unfold CallbackScope.perform
    rw [h.config]
    refine R.bind (h.field? _ key) fun found => ?_
    split
    · exact R.bind (h.display _) fun _ => R.bind (h.log _) fun _ => R.pure _
    · exact R.bind (h.log _) fun _ => R.pure _
  | interpreter => exact R.bind h.interpreter? fun _ => R.bind (h.log _) fun _ => R.pure _
  | state =>
    refine R.bind (h.stateText? run) fun found => ?_
    split
    · exact R.bind (h.log _) fun _ => R.pure _
    · exact R.pure _
  | change add role phase hook =>
    unfold CallbackScope.perform
    rw [h.role]
    dsimp only
    split
    · exact R.bind (R.pure _) fun _ => R.bind (h.log _) fun _ => R.pure _
    · exact R.bind (h.change _ _ _ _ _) fun _ => R.bind (h.log _) fun _ => R.pure _

lemma performAll (actions : List Action) :
    R.rel (sc.performAll c run actions) (sc'.performAll c run actions) := by
  induction actions with
  | nil => exact R.pure _
  | cons a rest ih =>
    unfold CallbackScope.performAll
    refine R.bind (h.perform a) fun outcome => ?_
    cases outcome with
    | done => exact ih
    | failed _ => exact R.pure _
    | panicked => exact R.pure _

lemma invoke (phase : Phase) : R.rel (sc.invoke phase run c) (sc'.invoke phase run c) := by
  unfold CallbackScope.invoke
  rw [h.role]
  exact R.bind (h.log _) fun _ => h.performAll c.actions

end CallbackScope.Lockstep

/-! ## The parts of a run -/

namespace Stage
variable {C : Type} {st : Stage m C} {st' : Stage n C} {mode : RunMode} {phase : Phase}
  {run : RunDescriptor}

section
variable (hnotify : ∀ text, R.rel (st.notify text) (st'.notify text))
include hnotify

lemma rel_report : ∀ e, R.rel (st.report e) (st'.report e)
  | .remote _ => R.pure ()
  | .hookCode .. | .execution _ | .transport _ => hnotify _

lemma rel_callAll (hname : st.callbackName = st'.callbackName) (cs : List C)
    (hinvoke : ∀ c ∈ cs, R.rel (st.invoke phase run c) (st'.invoke phase run c)) :
    R.rel (st.callAll phase run cs) (st'.callAll phase run cs) := by
  induction cs with
  | nil => exact R.pure 0
  | cons c rest ih =>
    obtain ⟨hc, hrest⟩ := List.forall_mem_cons.1 hinvoke
    unfold Stage.callAll
    refine R.bind hc fun outcome => ?_
    rw [hname]
    cases complaint phase (st'.callbackName c) outcome with
    | none => exact ih hrest
    | some text => exact R.bind (hnotify text) fun _ => R.bind (ih hrest) fun _ => R.pure _

lemma rel_executeCode (hcode : R.rel (st.code phase) (st'.code phase))
    (hexecute : ∀ code, R.rel (st.execute mode code) (st'.execute mode code)) :
    R.rel (st.executeCode mode phase) (st'.executeCode mode phase) := by
  rw [executeCode_eq, executeCode_eq]
  refine R.bind hcode fun code => ?_
  split
  · exact R.pure _
  · refine R.bind (hexecute code) fun outcome => ?_
    split
    · exact R.bind (rel_report hnotify _) fun _ => R.pure _
    · exact R.pure _

end

lemma rel_executeUser {code : String}
    (hexecute : R.rel (st.execute mode code) (st'.execute mode code)) :
    R.rel (st.executeUser mode code) (st'.executeUser mode code) := by
  refine R.bind hexecute fun outcome => ?_
  cases outcome <;> exact R.pure _

/-- Every part of a run of a mode is related to that part of the run on another stage. -/
structure PartsLockstep (R : MonadRel m n) (st : Stage m C) (st' : Stage n C) (mode : RunMode)
    (run : RunDescriptor) : Prop where
  get : R.rel st.get st'.get
  isReady : R.rel st.isReady st'.isReady
  modify (f : Lifecycle → Lifecycle) : R.rel (st.modify f) (st'.modify f)
  report (e : RunError) : R.rel (st.report e) (st'.report e)
  fire (phase : Phase) : R.rel (st.fire phase run) (st'.fire phase run)
  executeCode (phase : Phase) : R.rel (st.executeCode mode phase) (st'.executeCode mode phase)

namespace PartsLockstep
variable (h : PartsLockstep R st st' mode run)
include h

lemma ensureReadyAsync : R.rel (st.ensureReadyAsync run) (st'.ensureReadyAsync run) := by
  refine R.bind h.get fun l => ?_
  split
  · exact R.bind (h.fire _) fun _ => h.modify _
  · exact R.pure ()

lemma ensureReady : R.rel (st.ensureReady run) (st'.ensureReady run) := by
  refine R.bind h.isReady fun ready => ?_
  split
  · exact R.pure ()
  · exact h.ensureReadyAsync

lemma gate : R.rel (st.gate mode run) (st'.gate mode run) := by
  cases mode with
  | sync => exact h.ensureReady
  | async => exact h.ensureReadyAsync

lemma beforeRun : R.rel (st.beforeRun mode run) (st'.beforeRun mode run) := by
  rw [beforeRun_eq, beforeRun_eq]
  refine R.bind h.gate fun _ => R.bind (h.modify _) fun _ =>
    R.bind (h.executeCode _) fun result => ?_
  cases result with
  | error e => exact R.bind (h.modify _) fun _ => R.pure _
  | ok _ => exact R.bind (h.fire _) fun _ => R.bind (h.modify _) fun _ => R.pure _

lemma afterPhases : R.rel (st.afterPhases mode run) (st'.afterPhases mode run) := by
  rw [afterPhases_eq, afterPhases_eq]
  refine R.bind h.get fun l => ?_
  cases l.order with
  | callbacksFirst => exact R.bind (h.fire _) fun _ => h.executeCode _
  | codeFirst => exact R.bind (h.executeCode _) fun _ => R.bind (h.fire _) fun _ => R.pure _

lemma afterRun (outcome : Except RunError Value) :
    R.rel (st.afterRun mode run outcome) (st'.afterRun mode run outcome) := by
  rw [afterRun_eq, afterRun_eq]
  exact R.bind (h.modify _) fun _ => R.bind h.afterPhases fun _ => R.bind (h.modify _) fun _ =>
    R.pure _

lemma reportFailure : ∀ outcome, R.rel (st.reportFailure outcome) (st'.reportFailure outcome)
  | .error e => h.report e
  | .ok _ => R.pure ()

/-- The phases around related bodies. -/
lemma around {body : m (Except RunError Value)} {body' : n (Except RunError Value)}
    (hbody : R.rel body body') : R.rel (st.around mode run body) (st'.around mode run body') := by
  rw [around_eq, around_eq]
  refine R.bind h.beforeRun fun result => ?_
  cases result with
  | error e => exact R.pure _
  | ok _ =>
    refine R.bind hbody fun outcome => ?_
    exact R.bind (h.reportFailure outcome) fun _ => h.afterRun outcome

end PartsLockstep

/-! ## Stages -/

/-- Every operation of a stage is related to that of another one. -/
structure Lockstep (R : MonadRel m n) (st : Stage m C) (st' : Stage n C) : Prop where
  get : R.rel st.get st'.get
  isReady : R.rel st.isReady st'.isReady
  modify (f : Lifecycle → Lifecycle) : R.rel (st.modify f) (st'.modify f)
  callbacks (phase : Phase) : R.rel (st.callbacks phase) (st'.callbacks phase)
  code (phase : Phase) : R.rel (st.code phase) (st'.code phase)
  callbackName : st.callbackName = st'.callbackName
  invoke (phase : Phase) (run : RunDescriptor) (c : C) :
    R.rel (st.invoke phase run c) (st'.invoke phase run c)
  execute (mode : RunMode) (code : String) : R.rel (st.execute mode code) (st'.execute mode code)
  notify (text : String) : R.rel (st.notify text) (st'.notify text)

namespace Lockstep
variable (h : Lockstep R st st')
include h

lemma parts (mode : RunMode) (run : RunDescriptor) : PartsLockstep R st st' mode run where
  get := h.get
  isReady := h.isReady
  modify := h.modify
  report := rel_report h.notify
  fire phase := R.bind (h.callbacks phase) fun cs =>
    rel_callAll h.notify h.callbackName cs fun c _ => h.invoke phase run c
  executeCode phase := rel_executeCode h.notify (h.code phase) (h.execute mode)

/-- Whole runs of stages in lockstep are in lockstep. -/
theorem wholeRun (mode : RunMode) (run : RunDescriptor) (code : String) :
    R.rel (st.run mode run code) (st'.run mode run code) := by
  rw [run_eq, run_eq]
  exact (h.parts mode run).around (rel_executeUser (h.execute mode code))

end Lockstep
end Stage
end WorkerHost
