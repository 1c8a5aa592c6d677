import WorkerHost.Environment.Worker
import WorkerHost.Proofs.Lifecycle.Lockstep
import WorkerHost.Proofs.Shell.Lockstep
import WorkerHost.Proofs.Waiting

/-!
# What the interpreter of a worker touches

A script in a worker changes the worker's shell, the sinks of its output and the heap, and for
everything else it asks the host. So what holds of calls of the host, and of single steps that do
not change what is seen of the state, holds of a whole script, `MonadRel.Overlooks.execute`, and of
all that callbacks can do, `MonadRel.Overlooks.scope`.
-/

namespace WorkerHost
variable {V : Type} {view : EnvironmentState → V} {channel : ℕ} {stream : Stream}

/-- The interpreter of a worker changes nothing of what is seen of the state. -/
structure EnvironmentState.Beside (channel : ℕ) (view : EnvironmentState → V) : Prop where
  heap (s : EnvironmentState) (h : Heap) : view { s with heap := h } = view s
  worker (s : EnvironmentState) (f : WorkerContext → WorkerContext)
    (hcontext : ∀ w, (f w).context = w.context) (hbusy : ∀ w, (f w).busy = w.busy)
    (hconfig : ∀ w, (f w).config = w.config) : view (s.updateWorker channel f) = view s

/-- Neither do the callbacks of a worker, although they write to the log and change its hooks. -/
structure EnvironmentState.BesideCallbacks (channel : ℕ) (view : EnvironmentState → V) : Prop
    extends EnvironmentState.Beside channel view where
  log (s : EnvironmentState) (log : List String) : view { s with log := log } = view s
  hooks (s : EnvironmentState) (ms : Mentions) (r : Registry Callback) :
    view ({ s with mentions := ms }.updateContext (fun c => { c with registry := r })
      (.worker channel)) = view s

/-- Whatever happens in a worker changes nothing of what is seen of the state. -/
structure EnvironmentState.BesideWorker (channel : ℕ) (view : EnvironmentState → V) : Prop where
  heap (s : EnvironmentState) (h : Heap) : view { s with heap := h } = view s
  log (s : EnvironmentState) (log : List String) : view { s with log := log } = view s
  mentions (s : EnvironmentState) (ms : Mentions) : view { s with mentions := ms } = view s
  worker (s : EnvironmentState) (f : WorkerContext → WorkerContext)
    (hconfig : ∀ w, (f w).config = w.config) : view (s.updateWorker channel f) = view s

lemma EnvironmentState.BesideWorker.callbacks (h : EnvironmentState.BesideWorker channel view) :
    EnvironmentState.BesideCallbacks channel view where
  heap := h.heap
  worker s f _ _ := h.worker s f
  log := h.log
  hooks s ms r := (h.worker { s with mentions := ms }
    (fun w => { w with context := { w.context with registry := r } }) fun _ => rfl).trans
      (h.mentions s ms)

/-- The relation holds of calls of the host, and of single steps that do not change what is seen. -/
structure MonadRel.Overlooks
    (R : MonadRel (WorkerTask EnvironmentState) (WorkerTask EnvironmentState))
    (view : EnvironmentState → V) : Prop where
  call (target : Target) (args : List Value) : R.rel (callHost target args) (callHost target args)
  step {α : Type} {x : WorkerTask EnvironmentState α}
    (h : ∀ s, ∃ a s', x s = .done a s' ∧ view s' = view s) : R.rel x x

/-- Nothing of what is seen is changed in the end. -/
lemma Task.keeps_overlooks {between : EnvironmentState → EnvironmentState → Prop}
    (hbetween : ∀ s s', between s s' → view s' = view s) :
    (Task.keeps between view : MonadRel (WorkerTask EnvironmentState) _).Overlooks view where
  call _ _ := Task.keeps_ask hbetween _
  step := Task.keeps_of_done

/-- Nothing of what is seen is changed at any time. -/
lemma Task.calm_overlooks :
    (Task.calm view : MonadRel (WorkerTask EnvironmentState) _).Overlooks view where
  call _ _ := Task.calm_ask _
  step := Task.calm_of_done

namespace MonadRel.Overlooks
variable {R : MonadRel (WorkerTask EnvironmentState) (WorkerTask EnvironmentState)}
  (hR : R.Overlooks view)
include hR

/-- A step that only looks at the state. -/
lemma look {α : Type} (f : EnvironmentState → α) :
    R.rel (fun s => .done (f s) s : WorkerTask EnvironmentState α) fun s => .done (f s) s :=
  hR.step fun _ => ⟨_, _, rfl, rfl⟩

lemma sendText (text : String) :
    R.rel (ChannelSink.sendText (workerApi.write stream) text : WorkerTask EnvironmentState _)
      (ChannelSink.sendText (workerApi.write stream) text) := by
  unfold ChannelSink.sendText
  split
  · exact R.pure _
  · exact R.bind (R.bind (hR.call _ _) fun _ => R.pure _) fun _ => R.pure _

lemma notify (text : String) :
    R.rel (workerApi.tell text : WorkerTask EnvironmentState Unit) (workerApi.tell text) :=
  R.bind (R.bind (hR.call _ _) fun _ => R.pure _) fun _ => R.pure _

lemma reportFailure (config : Value) : ∀ outcome,
    R.rel ((WorkerContext.binding channel config).stage.reportFailure outcome)
      ((WorkerContext.binding channel config).stage.reportFailure outcome)
  | .error e => Stage.rel_report hR.notify e
  | .ok _ => R.pure ()

/-! ## Functions -/

section
variable (hheap : ∀ s (h : Heap), view { s with heap := h } = view s)
include hheap

lemma onHeap {α : Type} (f : Heap → α × Heap) :
    R.rel (onHeap f : WorkerTask EnvironmentState α) (onHeap f) :=
  hR.step fun s => ⟨_, _, rfl, hheap s _⟩

lemma service (args : List Value) (service : HostService) :
    R.rel (Body.askHost (m := WorkerTask EnvironmentState) workerApi args service)
      (Body.askHost workerApi args service) := by
  cases service with
  | sleep => exact R.bind (R.bind (hR.call _ _) fun _ => R.pure _) fun _ => R.pure _
  | notify =>
    refine R.bind (hR.onHeap hheap _) fun text => ?_
    exact R.bind (R.bind (hR.call _ _) fun _ => R.pure _) fun _ => R.pure _
  | requestPermission =>
    refine R.bind (hR.onHeap hheap _) fun resource => R.bind ?_ fun _ => R.pure _
    refine R.bind (hR.call _ _) fun answer => ?_
    split
    · exact R.pure _
    · exact R.bind (hR.onHeap hheap _) fun _ => R.pure _
    · exact R.pure _
  | call =>
    cases args with
    | nil => exact R.pure _
    | cons method args =>
      exact R.bind (hR.onHeap hheap _) fun name => R.bind (hR.call _ _) fun _ => R.pure _

/-- A function changes nothing but the heap, whatever it asks the host for. -/
lemma function (args : List Value) (body : Body) :
    R.rel (body.asFunction (m := WorkerTask EnvironmentState) workerApi args)
      (body.asFunction workerApi args) := by
  cases body with
  | forward method => exact R.bind (hR.call _ _) fun _ => R.pure _
  | service s => exact hR.service hheap args s
  | _ => exact hR.onHeap hheap _

end

/-! ## The console -/

section
variable (h : EnvironmentState.Beside channel view)
include h

lemma putSink (k : ChannelSink) :
    R.rel (WorkerContext.putSink channel stream k) (WorkerContext.putSink channel stream k) :=
  hR.step fun s => ⟨_, _, rfl,
    h.worker s _ (fun w => by cases stream <;> rfl) (fun w => by cases stream <;> rfl)
      fun w => by cases stream <;> rfl⟩

lemma drain (k : ChannelSink) :
    R.rel (k.drain (workerApi.write stream) (WorkerContext.putSink channel stream))
      (k.drain (workerApi.write stream) (WorkerContext.putSink channel stream)) := by
  unfold ChannelSink.drain
  split
  · exact R.pure _
  · exact R.bind (hR.putSink h _) fun _ => hR.sendText _

lemma write (data : String) :
    R.rel (WorkerContext.write channel stream data) (WorkerContext.write channel stream data) := by
  refine R.bind (hR.look _) fun k => R.bind (hR.drain h k) fun sent => ?_
  split
  · exact R.pure _
  · exact hR.sendText data

lemma flush : R.rel (WorkerContext.flush channel stream) (WorkerContext.flush channel stream) :=
  R.bind (hR.look _) fun k => hR.drain h k

lemma writeByte (b : UInt8) :
    R.rel ((WorkerContext.console channel).writeByte b)
      ((WorkerContext.console channel).writeByte b) := by
  refine R.bind (hR.look _) fun k => R.bind (hR.putSink h _) fun _ => ?_
  split
  · exact hR.drain h _
  · exact R.pure _

lemma readLine (prompt : Option String) :
    R.rel ((WorkerContext.console channel).readLine prompt)
      ((WorkerContext.console channel).readLine prompt) := by
  refine R.bind (R.bind (hR.call _ _) fun answer => ?_) fun answer => ?_
  · split
    · exact R.pure _
    · exact R.bind (hR.onHeap h.heap _) fun _ => R.pure _
    · exact R.pure _
  · split <;> exact R.pure _

/-- A worker's console changes the sinks of the worker and the heap. -/
lemma console : Console.Lockstep R (WorkerContext.console channel)
    (WorkerContext.console channel) where
  write := hR.write h
  put text := by
    induction Text.Utf8.encode text with
    | nil => exact R.line.pure ()
    | cons b rest ih => exact R.line.bind (MonadRel.line_stream (hR.writeByte h b)) fun _ => ih
  flush := hR.flush h
  writeError := hR.write h
  flushError := hR.flush h
  readLine := hR.readLine h
  call f args := hR.function h.heap args f.body
  display _ := hR.onHeap h.heap _

/-- Code in a worker changes its shell besides. -/
theorem execute (code : String) :
    R.rel (WorkerContext.execute channel code) (WorkerContext.execute channel code) := by
  refine R.bind (hR.look _) fun s => ?_
  refine R.bind ((hR.console h).run code _) fun (_, shell) => ?_
  refine R.bind (hR.step fun s => ⟨_, _, rfl, ?_⟩) fun _ => R.pure _
  exact h.worker s (fun w => { w with shell := shell }) (fun _ => rfl) (fun _ => rfl) fun _ => rfl

/-- Whatever a run is bound to in a worker runs its code. -/
lemma executeBound (config : Value) (mode : RunMode) (code : String) :
    R.rel ((WorkerContext.binding channel config).stage.execute mode code)
      ((WorkerContext.binding channel config).stage.execute mode code) :=
  R.bind (hR.execute h code) fun _ => R.pure _

/-- The code of a phase is that of the registry at this moment. -/
theorem executeCode (config : Value) (mode : RunMode) (phase : Phase) :
    R.rel ((WorkerContext.binding channel config).stage.executeCode mode phase)
      ((WorkerContext.binding channel config).stage.executeCode mode phase) :=
  Stage.rel_executeCode hR.notify (hR.look _) (hR.executeBound h config mode)

lemma executeUser (config : Value) (mode : RunMode) (code : String) :
    R.rel ((WorkerContext.binding channel config).stage.executeUser mode code)
      ((WorkerContext.binding channel config).stage.executeUser mode code) :=
  Stage.rel_executeUser (hR.executeBound h config mode code)

end

/-! ## Callbacks -/

section
variable (h : EnvironmentState.BesideCallbacks channel view)
include h

/-- Whatever a callback of a worker is told and can do. -/
theorem scope (config : Value) (role : Role) :
    CallbackScope.Lockstep R ((WorkerContext.binding channel config).scope role)
      ((WorkerContext.binding channel config).scope role) where
  role := rfl
  config := rfl
  hasWorker := rfl
  log _ := hR.step fun s => ⟨_, _, rfl, h.log s _⟩
  display _ := hR.look _
  field? _ _ := hR.look _
  interpreter? := R.bind (hR.look _) fun _ => R.pure _
  execute _ := R.bind (hR.execute h.toBeside _) fun _ => R.pure _
  stateText? _ := R.pure _
  change _ _ _ _ _ := hR.step fun s => ⟨_, _, rfl, h.hooks s _ _⟩

/-- The callbacks of a phase are those that it has in the beginning. -/
theorem fire (config : Value) (phase : Phase) (run : RunDescriptor) :
    R.rel ((WorkerContext.binding channel config).stage.fire phase run)
      ((WorkerContext.binding channel config).stage.fire phase run) :=
  R.bind (hR.look _) fun cs => Stage.rel_callAll hR.notify rfl cs fun _ _ =>
    R.bind (hR.look _) fun role => (hR.scope h config role).invoke phase

theorem afterPhases (config : Value) (mode : RunMode) (run : RunDescriptor) :
    R.rel ((WorkerContext.binding channel config).stage.afterPhases mode run)
      ((WorkerContext.binding channel config).stage.afterPhases mode run) := by
  have hfire := hR.fire h config mode.phases.after run
  have hcode := hR.executeCode h.toBeside config mode mode.phases.codeAfter
  rw [Stage.afterPhases_eq]
  refine R.bind (hR.look _) fun l => ?_
  cases l.order with
  | callbacksFirst => exact R.bind hfire fun _ => hcode
  | codeFirst => exact R.bind hcode fun _ => R.bind hfire fun _ => R.pure _

end

/-! ## Whole runs -/

section
variable (h : EnvironmentState.BesideWorker channel view)
include h

lemma stage (config : Value) : (WorkerContext.binding channel config).stage.Lockstep R
    (WorkerContext.binding channel config).stage where
  get := hR.look _
  isReady := hR.look _
  modify _ := hR.step fun s => ⟨_, _, rfl, h.worker s _ fun _ => rfl⟩
  callbacks _ := hR.look _
  code _ := hR.look _
  callbackName := rfl
  invoke phase _ _ := R.bind (hR.look _) fun role =>
    (hR.scope h.callbacks config role).invoke phase
  execute := hR.executeBound h.callbacks.toBeside config
  notify := hR.notify

/-- A worker that serves a call to run. -/
theorem serve (mode : RunMode) (args : List Value) :
    R.rel (WorkerContext.serve channel mode args) (WorkerContext.serve channel mode args) := by
  unfold WorkerContext.serve
  split
  · refine R.bind (hR.look _) fun s => ?_
    dsimp only
    split
    · exact R.pure _
    · refine R.bind (hR.step fun s => ⟨_, _, rfl, h.worker s _ fun _ => rfl⟩) fun _ => ?_
      refine R.bind (hR.step fun s => ⟨_, _, rfl, h.worker s _ fun _ => rfl⟩) fun run => ?_
      refine R.bind ((hR.stage h _).wholeRun mode run _) fun _ => ?_
      exact R.bind (hR.step fun s => ⟨_, _, rfl, h.worker s _ fun _ => rfl⟩) fun _ => R.pure _
  · exact R.pure _

end

end MonadRel.Overlooks
end WorkerHost
