import WorkerHost.Environment.Context
import WorkerHost.Proofs.Lifecycle.Replay

/-!
# Runs in the contexts of an environment

A run takes its callbacks and its code from the registry of its context at the moment it needs them,
and while it waits for something others may go on. `Binding.Steady` says that neither what a run is
bound to nor those others change the context. If its callbacks do not either, the run does what the
lifecycle does with this registry: its transcript tells how callbacks and code ended, and with these
ends its events are those of `Behaviour.replay`, `Binding.Steady.parts`.
-/

namespace WorkerHost

/-! ## Callbacks that leave the registry alone -/

/-- The action does not change the registry. -/
def Action.Passive : Action → Prop
  | change .. => False
  | _ => True

def Callback.Passive (c : Callback) : Prop :=
  ∀ a ∈ c.actions, a.Passive

/-- No callback of the registry changes it. -/
def Registry.Passive (r : Registry Callback) : Prop :=
  ∀ phase, ∀ c ∈ r.callbacksOf phase, c.Passive

namespace CallbackScope
variable {m : Type → Type} [Monad m] (sc : CallbackScope m)
  (change : Bool → Role → Phase → ℕ → HookSpec → m (Except HookError Bool)) {c : Callback}
  {run : RunDescriptor}

/-- What the registry would do makes no difference to an action that does not ask it. -/
lemma perform_of_passive {a : Action} (ha : a.Passive) :
    sc.perform c run a = { sc with change := change }.perform c run a := by
  cases a with
  | change _ _ _ _ => cases ha
  | _ => rfl

lemma performAll_of_passive {actions : List Action} (hactions : ∀ a ∈ actions, a.Passive) :
    sc.performAll c run actions = { sc with change := change }.performAll c run actions := by
  induction actions with
  | nil => rfl
  | cons a rest ih =>
    obtain ⟨ha, hrest⟩ := List.forall_mem_cons.1 hactions
    unfold performAll
    rw [sc.perform_of_passive change ha]
    refine bind_congr fun outcome => ?_
    cases outcome with
    | done => exact ih hrest
    | failed _ | panicked => rfl

lemma invoke_of_passive (hc : c.Passive) (phase : Phase) :
    sc.invoke phase run c = { sc with change := change }.invoke phase run c := by
  unfold invoke
  rw [sc.performAll_of_passive change hc]

end CallbackScope

/-! ## Contexts -/

namespace EnvironmentState
variable {s : EnvironmentState} {id : ContextId} {c : ContextState}

/-- A context, if there is one. -/
def context? (s : EnvironmentState) : ContextId → Option ContextState
  | .own => some s.own
  | .worker channel => s.workers[channel]?.map (·.context)

lemma context_eq (h : s.context? id = some c) : s.context id = c := by
  cases id with
  | own => exact Option.some.inj h
  | worker channel =>
    obtain ⟨w, hw, rfl⟩ := Option.map_eq_some_iff.1 h
    simp [context, worker, Array.getD_eq_getD_getElem?, hw]

lemma context?_updateContext (h : s.context? id = some c) (f : ContextState → ContextState) :
    (s.updateContext f id).context? id = some (f c) := by
  cases id with
  | own =>
    obtain rfl := Option.some.inj h
    rfl
  | worker channel =>
    obtain ⟨w, hw, rfl⟩ := Option.map_eq_some_iff.1 h
    simp [context?, updateContext, updateWorker, Array.getElem?_modify, hw]

lemma context?_log (s : EnvironmentState) (log : List String) (id : ContextId) :
    { s with log := log }.context? id = s.context? id := by
  cases id <;> rfl

lemma context?_heap (s : EnvironmentState) (h : Heap) (id : ContextId) :
    { s with heap := h }.context? id = s.context? id := by
  cases id <;> rfl

/-- What is done to a worker beside its context. -/
lemma context?_updateWorker (s : EnvironmentState) (channel : ℕ)
    {f : WorkerContext → WorkerContext} (hf : ∀ w, (f w).context = w.context) (id : ContextId) :
    (s.updateWorker channel f).context? id = s.context? id := by
  cases id with
  | own => rfl
  | worker i =>
    simp only [context?, updateWorker, Array.getElem?_modify]
    split
    · simp [Option.map_map, Function.comp_def, hf]
    · rfl

end EnvironmentState

/-! ## Runs -/

variable {Q : Type} {R : Q → Type} {between : EnvironmentState → EnvironmentState → Prop}

/-- Neither what a run is bound to nor anybody else changes the context of the run. The run has an
interpreter exactly if it is bound to one. -/
structure Binding.Steady (between : EnvironmentState → EnvironmentState → Prop)
    (b : Binding (Task EnvironmentState Q R)) (bound : Bool) : Prop where
  interpreter? : b.interpreter?.Keeps between (·.context? b.context)
  execute (code : String) : (b.execute code).Keeps between (·.context? b.context)
  notify (text : String) : (b.notify text).Keeps between (·.context? b.context)
  bound (code : String) : ∀ s log r s', (b.execute code s).Course between log r s' →
    r.isSome = bound

/-- The computation, whose context has some registry, leaves the registry as it is, and does with
its lifecycle what the other one does in which all ends as in the transcript. -/
def replaying (between : EnvironmentState → EnvironmentState → Prop) (id : ContextId)
    (r : Registry Callback) :
    MonadRel (StateT (List (StageExchange Callback)) (Task EnvironmentState Q R))
      (StateM (Recorded Callback (List (RunEvent Callback)))) where
  rel x y := ∀ es s log a es' s' l, s.context? id = some ⟨r, l⟩ →
    ((x.run es) s).Course between log (a, es') s' →
    ∃ new l', es' = es ++ new ∧ (∀ e ∈ new, e.1 ≠ .body) ∧ s'.context? id = some ⟨r, l'⟩ ∧
      ∀ rest trace, y.run ⟨l, (r, RunEvent.endings new ++ rest), trace⟩ =
        (a, ⟨l', (r, rest), trace ++ RunEvent.ofTranscript new⟩)
  pure a es s log b es' s' l hl h := by
    obtain ⟨rfl, hb, rfl⟩ := Step.course_done.1 h
    obtain ⟨rfl, rfl⟩ := Prod.mk.inj hb
    refine ⟨[], l, (List.append_nil _).symm, by simp, hl, fun rest trace => ?_⟩
    show (_, _) = _
    simp [RunEvent.endings, RunEvent.ofTranscript]
  bind {_ _ x y f g} hx hf es s log b es' s' l hl h := by
    obtain ⟨_, ⟨a, es₁⟩, s₁, _, rfl, hfirst, hrest⟩ := Step.course_bind.1 h
    obtain ⟨new, l₁, rfl, hbody, hl₁, hy⟩ := hx _ _ _ _ _ _ _ hl hfirst
    obtain ⟨new', l₂, rfl, hbody', hl₂, hg⟩ := hf a _ _ _ _ _ _ _ hl₁ hrest
    -- the endings that the first part is given are its own, and then those of the second part
    refine ⟨new ++ new', l₂, List.append_assoc .., List.forall_mem_append.2 ⟨hbody, hbody'⟩, hl₂,
      fun rest trace => ?_⟩
    rw [RunEvent.endings_append, List.append_assoc, run_bind_of_run (hy _ trace), hg,
      RunEvent.ofTranscript_append, List.append_assoc]

namespace Binding.Steady
variable {b : Binding (Task EnvironmentState Q R)} {bound : Bool} {r : Registry Callback}
  {mode : RunMode} {run : RunDescriptor}

/-- One exchange. -/
lemma replaying_noted {q : StageAsk Callback} {x : Task EnvironmentState Q R q.Answer}
    {y : StateM (Recorded Callback (List (RunEvent Callback))) q.Answer} {id : ContextId}
    (hbody : q ≠ .body)
    (h : ∀ s log a s' l, s.context? id = some ⟨r, l⟩ → (x s).Course between log a s' →
      ∃ l', s'.context? id = some ⟨r, l'⟩ ∧ ∀ rest trace,
        y.run ⟨l, (r, RunEvent.endings [⟨q, a⟩] ++ rest), trace⟩ =
          (a, ⟨l', (r, rest), trace ++ RunEvent.ofTranscript [⟨q, a⟩]⟩)) :
    (replaying between id r).rel (Stage.noted q x) y := by
  intro es s log a es' s' l hl hcourse
  obtain ⟨_, a', s₁, _, rfl, hfirst, hrest⟩ := Step.course_bind.1 hcourse
  obtain ⟨rfl, ha, rfl⟩ := Step.course_done.1 hrest
  obtain ⟨rfl, rfl⟩ := Prod.mk.inj ha
  obtain ⟨l', hl', hy⟩ := h _ _ _ _ _ hl hfirst
  exact ⟨[⟨q, a⟩], l', rfl, by simpa using hbody, hl', hy⟩

/-- An exchange in one step that is no event. -/
lemma replaying_done {q : StageAsk Callback} {x : Task EnvironmentState Q R q.Answer}
    {y : StateM (Recorded Callback (List (RunEvent Callback))) q.Answer} {id : ContextId}
    (hbody : q ≠ .body) (hq : ∀ a, StageExchange.event? (C := Callback) ⟨q, a⟩ = none)
    (h : ∀ s l, s.context? id = some ⟨r, l⟩ → ∃ a s' l', x s = .done a s' ∧
      s'.context? id = some ⟨r, l'⟩ ∧
      ∀ w trace, y.run ⟨l, (r, w), trace⟩ = (a, ⟨l', (r, w), trace⟩)) :
    (replaying between id r).rel (Stage.noted q x) y := by
  refine replaying_noted hbody fun s log a s' l hl hcourse => ?_
  obtain ⟨a', s₁, l', hdone, hl', hy⟩ := h s l hl
  rw [hdone] at hcourse
  obtain ⟨-, rfl, rfl⟩ := Step.course_done.1 hcourse
  refine ⟨l', hl', fun rest trace => ?_⟩
  have hnone : RunEvent.ofTranscript [(⟨q, a⟩ : StageExchange Callback)] = [] := by
    simp [RunEvent.ofTranscript, hq a]
  rw [RunEvent.endings, hnone, List.append_nil]
  exact hy rest trace

lemma replaying_get : (replaying between b.context r).rel b.stage.transcribed.get
    (Behaviour.replay Callback.name bound).stage.get := by
  refine replaying_done (q := .get) nofun (fun _ => rfl) fun s l hl => ?_
  refine ⟨l, s, l, ?_, hl, fun _ _ => rfl⟩
  show Step.done (s.context b.context).lifecycle s = _
  rw [EnvironmentState.context_eq hl]

lemma replaying_isReady : (replaying between b.context r).rel b.stage.transcribed.isReady
    (Behaviour.replay Callback.name bound).stage.isReady := by
  refine replaying_done (q := .isReady) nofun (fun _ => rfl) fun s l hl => ?_
  refine ⟨l.ready, s, l, ?_, hl, fun _ _ => rfl⟩
  show Step.done (s.context b.context).lifecycle.ready s = _
  rw [EnvironmentState.context_eq hl]

lemma replaying_modify (f : Lifecycle → Lifecycle) :
    (replaying between b.context r).rel (b.stage.transcribed.modify f)
      ((Behaviour.replay Callback.name bound).stage.modify f) :=
  replaying_done (q := .modify f) nofun (fun _ => rfl) fun _ l hl =>
    ⟨(), _, f l, rfl, EnvironmentState.context?_updateContext hl _, fun _ _ => rfl⟩

lemma replaying_code (phase : Phase) :
    (replaying between b.context r).rel (b.stage.transcribed.code phase)
      ((Behaviour.replay Callback.name bound).stage.code phase) := by
  refine replaying_done (q := .code phase) nofun (fun _ => rfl) fun s l hl => ?_
  refine ⟨r.composed phase, s, l, ?_, hl, fun _ _ => rfl⟩
  show Step.done ((s.context b.context).registry.composed phase) s = _
  rw [EnvironmentState.context_eq hl]

section
variable (h : b.Steady between bound)
include h

lemma replaying_notify (text : String) :
    (replaying between b.context r).rel (b.stage.transcribed.notify text)
      ((Behaviour.replay Callback.name bound).stage.notify text) := by
  refine replaying_noted (q := .notify text) nofun fun s log u s' l hl hcourse => ?_
  exact ⟨l, (h.notify text _ _ _ _ hcourse).trans hl, fun rest trace => rfl⟩

lemma replaying_execute (code : String) :
    (replaying between b.context r).rel (b.stage.transcribed.execute mode code)
      ((Behaviour.replay Callback.name bound).stage.execute mode code) := by
  refine replaying_noted (q := .execute mode code) nofun fun s log o s' l hl hcourse => ?_
  refine ⟨l, (h.execute code _ _ _ _ hcourse).trans hl, fun rest trace => ?_⟩
  have hbound := h.bound code _ _ _ _ hcourse
  cases o with
  | none =>
    obtain rfl : bound = false := hbound.symm
    exact congrArg (fun t => ((none : Option (Except InterpreterError Value)),
      (⟨l, (r, rest), t⟩ : Recorded _ _))) (List.append_nil trace).symm
  | some outcome =>
    obtain rfl : bound = true := hbound.symm
    rfl

lemma keeps_scope (role : Role) :
    CallbackScope.Lockstep (Task.keeps between (·.context? b.context))
      { b.scope role with change := fun _ _ _ _ _ => pure (.ok false) }
      { b.scope role with change := fun _ _ _ _ _ => pure (.ok false) } where
  role := rfl
  config := rfl
  hasWorker := rfl
  log _ := Task.keeps_of_done fun s => ⟨_, _, rfl, s.context?_log _ b.context⟩
  display _ := Task.keeps_of_done fun _ => ⟨_, _, rfl, rfl⟩
  field? _ _ := Task.keeps_of_done fun _ => ⟨_, _, rfl, rfl⟩
  interpreter? := h.interpreter?
  execute := h.execute
  stateText? _ := .pure _
  change _ _ _ _ _ := .pure _

lemma keeps_invoke {c : Callback} (hc : c.Passive) :
    (b.stage.invoke phase run c).Keeps between (·.context? b.context) := by
  refine (Task.keeps_of_done fun s => ⟨_, _, rfl, rfl⟩).bind fun role => ?_
  rw [CallbackScope.invoke_of_passive _ (fun _ _ _ _ _ => pure (.ok false)) hc]
  exact (h.keeps_scope role).invoke phase

lemma replaying_invoke {c : Callback} (hc : c.Passive) :
    (replaying between b.context r).rel (b.stage.transcribed.invoke phase run c)
      ((Behaviour.replay Callback.name bound).stage.invoke phase run c) := by
  refine replaying_noted (q := .invoke phase run c) nofun fun s log outcome s' l hl hcourse => ?_
  exact ⟨l, (h.keeps_invoke hc _ _ _ _ hcourse).trans hl, fun rest trace => rfl⟩

lemma replaying_callAll {cs : List Callback} (hcs : ∀ c ∈ cs, c.Passive) :
    (replaying between b.context r).rel (b.stage.transcribed.callAll phase run cs)
      ((Behaviour.replay Callback.name bound).stage.callAll phase run cs) :=
  Stage.rel_callAll h.replaying_notify rfl cs fun c hc => h.replaying_invoke (hcs c hc)

lemma replaying_fire (hr : r.Passive) :
    (replaying between b.context r).rel (b.stage.transcribed.fire phase run)
      ((Behaviour.replay Callback.name bound).stage.fire phase run) := by
  intro es s log n es' s' l hl hcourse
  -- the callbacks that are called are those of the registry
  have hcallbacks : (b.stage.transcribed.fire phase run).run es s =
      (b.stage.transcribed.callAll phase run (r.callbacksOf phase)).run
        (es ++ [⟨.callbacks phase, r.callbacksOf phase⟩]) s := by
    show (b.stage.transcribed.callAll phase run
      ((s.context b.context).registry.callbacksOf phase)).run
        (es ++ [⟨.callbacks phase, (s.context b.context).registry.callbacksOf phase⟩]) s = _
    rw [EnvironmentState.context_eq hl]
  rw [hcallbacks] at hcourse
  obtain ⟨new, l', rfl, hbody, hl', hy⟩ := h.replaying_callAll (hr phase) _ _ _ _ _ _ _ hl hcourse
  exact ⟨⟨.callbacks phase, r.callbacksOf phase⟩ :: new, l', List.append_assoc ..,
    List.forall_mem_cons.2 ⟨nofun, hbody⟩, hl', hy⟩

/-- The run does what the lifecycle does with a registry that stays as it is. -/
theorem parts (hr : r.Passive) : Stage.PartsLockstep (replaying between b.context r)
    b.stage.transcribed (Behaviour.replay Callback.name bound).stage mode run where
  get := replaying_get
  isReady := replaying_isReady
  modify := replaying_modify
  report := Stage.rel_report h.replaying_notify
  fire _ := h.replaying_fire hr
  executeCode _ := Stage.rel_executeCode h.replaying_notify (replaying_code _) h.replaying_execute

end

end Binding.Steady
end WorkerHost
