import WorkerHost.Proofs.Channel.Agreement
import WorkerHost.Proofs.Channel.Nested
import WorkerHost.Proofs.Channel.Stack
import WorkerHost.Proofs.Environment.Across
import WorkerHost.Proofs.Environment.Interpreter

/-!
# One run at a time

A worker has one interpreter. While a run waits for the host, the thread serves whatever calls
arrive, and those may be calls to run again.

* `WorkerContext.maintains_acceptedRun`: a run takes the interpreter and gives it back, however it
  ends, and meanwhile the lifecycle has no other run;
* `WorkerContext.AtWork.exclusive`: so at most one call to run is being served at any time. Another
  one is refused without a trace, and once there is none the next one is accepted. A call without
  source text is turned down before that, with an error of its own: `not_every_call_busy`.
-/

namespace WorkerHost
namespace WorkerContext
variable {channel : ℕ} {config : Value} {mode : RunMode} {run : RunDescriptor} {code : String}

/-! ## What is seen of runs -/

/-- Whether the interpreter of a worker is in use, and the runs that its lifecycle has. -/
abbrev Occupancy := Bool × List (UInt64 × RunState)

def occupancy (channel : ℕ) (s : EnvironmentState) : Option Occupancy :=
  (s.workers[channel]?).map fun w => (w.busy, w.context.lifecycle.runs)

/-- No run is in progress. -/
def Free (v : Option Occupancy) : Prop :=
  v = some (false, [])

/-- The interpreter is in use, by a run that has not entered the lifecycle or has left it. -/
def Reserved (v : Option Occupancy) : Prop :=
  v = some (true, [])

/-- The interpreter is in use, by this run. -/
def Within (run : RunDescriptor) (v : Option Occupancy) : Prop :=
  Reserved v ∨ ∃ state, v = some (true, [(run.id, state)])

/-- The interpreter is in use, by one run at most. -/
def Taken (v : Option Occupancy) : Prop :=
  ∃ runs, v = some (true, runs) ∧ runs.length ≤ 1

lemma Reserved.taken {v : Option Occupancy} (h : Reserved v) : Taken v :=
  ⟨[], h, Nat.zero_le 1⟩

lemma Within.taken {v : Option Occupancy} : Within run v → Taken v
  | .inl h => h.taken
  | .inr ⟨state, h⟩ => ⟨[(run.id, state)], h, Nat.le_refl 1⟩

lemma occupancy_update (s : EnvironmentState) (f : WorkerContext → WorkerContext)
    (g : Occupancy → Occupancy)
    (hf : ∀ w, ((f w).busy, (f w).context.lifecycle.runs) = g (w.busy, w.context.lifecycle.runs)) :
    occupancy channel (s.updateWorker channel f) = (occupancy channel s).map g := by
  simp [occupancy, EnvironmentState.updateWorker, Array.getElem?_modify, Option.map_map,
    Function.comp_def, hf]

lemma occupancy_updateContext (s : EnvironmentState) (f : ContextState → ContextState)
    (g : List (UInt64 × RunState) → List (UInt64 × RunState))
    (hf : ∀ c, (f c).lifecycle.runs = g c.lifecycle.runs) :
    occupancy channel (s.updateContext f (.worker channel)) =
      (occupancy channel s).map (Prod.map id g) :=
  occupancy_update s _ _ fun w => congrArg (Prod.mk w.busy) (hf w.context)

/-- Neither the interpreter nor callbacks end a run or begin one. -/
lemma beside_occupancy : EnvironmentState.BesideCallbacks channel (occupancy channel) where
  heap _ _ := rfl
  worker s f hcontext hbusy _ :=
    (occupancy_update s f id fun w => by rw [hcontext, hbusy]; rfl).trans Option.map_id'
  log _ _ := rfl
  hooks s ms r :=
    (occupancy_updateContext { s with mentions := ms } (fun c => { c with registry := r }) id
      fun _ => rfl).trans Option.map_id'

/-! ## The parts of a run -/

/-- A change of the lifecycle. -/
lemma maintains_modify {pre during post : Option Occupancy → Prop} {f : Lifecycle → Lifecycle}
    (g : List (UInt64 × RunState) → List (UInt64 × RunState)) (hf : ∀ l, (f l).runs = g l.runs)
    (h : ∀ v, pre v → post (v.map (Prod.map id g))) :
    ((binding channel config).stage.modify f).Maintains (occupancy channel) pre during
      fun v _ => post v := by
  refine .of_done fun s hs => ⟨_, _, rfl, ?_⟩
  have hupdate : _ = (occupancy channel s).map _ := occupancy_updateContext s
    (fun c => { c with lifecycle := f c.lifecycle }) g fun c => hf c.lifecycle
  exact hupdate ▸ h _ hs

/-- A descriptor is not yet a run. -/
lemma occupancy_descriptor (s : EnvironmentState) (source : String) (mode : RunMode) :
    occupancy channel (s.descriptor (.worker channel) source mode).2 = occupancy channel s := by
  unfold occupancy EnvironmentState.descriptor EnvironmentState.updateContext
  cases hw : s.workers[channel]? with
  | none => simp [EnvironmentState.updateWorker, Array.getElem?_modify, hw]
  | some w =>
    simp [workers_update hw, EnvironmentState.context, worker_eq hw, Lifecycle.descriptor]

lemma calm_descriptor (config : Value) (source : String) (mode : RunMode) :
    ((binding channel config).descriptor source mode).Calm (occupancy channel) :=
  Task.calm_of_done fun s => ⟨_, _, rfl, occupancy_descriptor s source mode⟩

lemma calm_ensureReadyAsync (config : Value) (run : RunDescriptor) :
    ((binding channel config).stage.ensureReadyAsync run).Calm (occupancy channel) := by
  refine .bind (Task.calm_overlooks.look _) fun l => ?_
  split
  · refine .bind (Task.calm_overlooks.fire beside_occupancy config _ run) fun _ v => ?_
    exact maintains_modify id (fun _ => rfl) fun v hv => by simpa using hv
  · exact .pure ()

lemma calm_ensureReady (config : Value) (run : RunDescriptor) :
    ((binding channel config).stage.ensureReady run).Calm (occupancy channel) := by
  refine .bind (Task.calm_overlooks.look _) fun ready => ?_
  split
  · exact .pure ()
  · exact calm_ensureReadyAsync config run

lemma calm_gate (config : Value) (mode : RunMode) (run : RunDescriptor) :
    ((binding channel config).stage.gate mode run).Calm (occupancy channel) := by
  cases mode with
  | sync => exact calm_ensureReady config run
  | async => exact calm_ensureReadyAsync config run

lemma maintains_enter (config : Value) (run : RunDescriptor) (state : RunState) :
    ((binding channel config).stage.modify (·.enter run state)).Maintains (occupancy channel)
      (Within run) Taken fun v _ => Within run v := by
  refine maintains_modify (fun runs => (run.id, state) :: runs.filter (·.1 != run.id))
    (fun _ => rfl) ?_
  rintro v (rfl | ⟨_, rfl⟩)
  · exact .inr ⟨state, rfl⟩
  · exact .inr ⟨state, by simp⟩

lemma maintains_leave (config : Value) (run : RunDescriptor) :
    ((binding channel config).stage.modify (·.leave run)).Maintains (occupancy channel)
      (Within run) Taken fun v _ => Reserved v := by
  refine maintains_modify (fun runs => runs.filter (·.1 != run.id)) (fun _ => rfl) ?_
  rintro v (rfl | ⟨_, rfl⟩) <;> simp [Reserved]

/-- The first computation of a worker is no run. -/
lemma calm_becomeReady (channel : ℕ) : (becomeReady channel).Calm (occupancy channel) :=
  .bind (Task.calm_overlooks.look _) fun _ => .bind (calm_descriptor _ _ _) fun _ =>
    calm_ensureReady _ _

/-- What shows no change, in the middle of a run. -/
lemma maintains_within {α : Type} {x : WorkerTask EnvironmentState α}
    (h : x.Calm (occupancy channel)) :
    x.Maintains (occupancy channel) (Within run) Taken fun v _ => Within run v :=
  h.maintains fun _ => Within.taken

/-- Before its code a run enters the lifecycle. If the code of that phase fails, it leaves. -/
lemma maintains_beforeRun (config : Value) (mode : RunMode) (run : RunDescriptor) :
    ((binding channel config).stage.beforeRun mode run).Maintains (occupancy channel)
      (Within run) Taken fun v r =>
        match r with
        | .error _ => Reserved v
        | .ok _ => Within run v := by
  rw [Stage.beforeRun_eq]
  refine .bind (maintains_within (calm_gate config mode run)) fun _ => ?_
  refine .bind (maintains_enter config run .beforeRun) fun _ => ?_
  refine .bind (maintains_within
    (Task.calm_overlooks.executeCode beside_occupancy.toBeside config mode _)) fun result => ?_
  cases result with
  | error e => exact .bind (maintains_leave config run) fun _ => .pure fun _ h => h
  | ok _ =>
    refine .bind (maintains_within
      (Task.calm_overlooks.fire beside_occupancy config _ run)) fun _ => ?_
    exact .bind (maintains_enter config run .executing) fun _ => .pure fun _ h => h

/-- Whatever the outcome of its code, after it a run leaves the lifecycle. -/
lemma maintains_afterRun (config : Value) (mode : RunMode) (run : RunDescriptor)
    (outcome : Except RunError Value) :
    ((binding channel config).stage.afterRun mode run outcome).Maintains (occupancy channel)
      (Within run) Taken fun v _ => Reserved v := by
  rw [Stage.afterRun_eq]
  refine .bind (maintains_enter config run .afterRun) fun _ => ?_
  refine .bind (maintains_within
    (Task.calm_overlooks.afterPhases beside_occupancy config mode run)) fun _ => ?_
  exact .bind (maintains_leave config run) fun _ => .pure fun _ h => h

/-- A whole run in a worker leaves the lifecycle, however it ends. -/
lemma maintains_run (config : Value) (mode : RunMode) (run : RunDescriptor) (code : String) :
    ((binding channel config).stage.run mode run code).Maintains (occupancy channel)
      Reserved Taken fun v _ => Reserved v := by
  rw [Stage.run_eq, Stage.around_eq]
  refine .bind ((maintains_beforeRun config mode run).weaken fun _ => .inl) fun result => ?_
  cases result with
  | error e => exact .pure fun _ h => h
  | ok _ =>
    refine .bind (maintains_within (Task.calm_overlooks.executeUser
      beside_occupancy.toBeside config mode code)) fun outcome => ?_
    refine .bind (maintains_within (Task.calm_overlooks.reportFailure config outcome)) fun _ => ?_
    exact maintains_afterRun config mode run outcome

lemma maintains_setBusy (busy : Bool) (runs : List (UInt64 × RunState))
    {during : Option Occupancy → Prop} :
    (setBusy channel (!busy)).Maintains (occupancy channel) (· = some (busy, runs)) during
      fun v _ => v = some (!busy, runs) := by
  refine .of_done fun s hs => ⟨_, _, rfl, ?_⟩
  exact (occupancy_update s _ (fun v => (!busy, v.2)) fun _ => rfl).trans (by rw [hs]; rfl)

/-- Runs source text, in an interpreter that is not in use. -/
def acceptedRun (channel : ℕ) (mode : RunMode) (code : String) :
    WorkerTask EnvironmentState (Except RemoteError Value) := do
  let w := (← get).worker channel
  setBusy channel true
  let b := binding channel w.config
  let outcome ← b.stage.run mode (← b.descriptor w.name mode) code
  setBusy channel false
  return outcome.mapError RunError.toRemote

/-- A run that is accepted takes the interpreter and gives it back, however it ends. -/
theorem maintains_acceptedRun (channel : ℕ) (mode : RunMode) (code : String) :
    (acceptedRun channel mode code).Maintains (occupancy channel) Free Taken
      fun v _ => Free v := by
  refine .bind (.of_unchanged fun s => ⟨s, s, rfl, rfl⟩) fun s => ?_
  refine .bind (maintains_setBusy false []) fun _ => ?_
  refine .bind ((calm_descriptor _ _ mode).maintains fun _ => Reserved.taken) fun run => ?_
  refine .bind (maintains_run _ mode run code) fun outcome => ?_
  exact .bind (maintains_setBusy true []) fun _ => .pure fun _ h => h

/-! ## Calls -/

variable {s : EnvironmentState}

lemma busy_of_occupancy {v : Occupancy} (h : occupancy channel s = some v) :
    (s.worker channel).busy = v.1 ∧ (s.worker channel).context.lifecycle.runs = v.2 := by
  obtain ⟨w, hw, rfl⟩ := Option.map_eq_some_iff.1 h
  rw [worker_eq hw]
  exact ⟨rfl, rfl⟩

lemma runSource_free (hfree : Free (occupancy channel s)) :
    runSource channel mode code s = acceptedRun channel mode code s := by
  show (if (s.worker channel).busy then _ else _ : WorkerTask EnvironmentState _) s = _
  rw [if_neg (by simp [(busy_of_occupancy hfree).1])]
  rfl

lemma runSource_taken (htaken : Taken (occupancy channel s)) :
    runSource channel mode code s = .done (.error busyError) s := by
  obtain ⟨runs, hruns, -⟩ := htaken
  exact runSource_busy (busy_of_occupancy hruns).1

/-- What is seen while a call waits, by what was seen when it arrived. Only a run that is accepted
makes a difference. -/
def Inside : RunMode ⊕ Function → Option Occupancy → Option Occupancy → Prop
  | .inl _, v, u => Free v ∧ Taken u
  | .inr _, v, u => u = v

/-- Whatever a worker serves gives back the interpreter that it takes. -/
theorem restores (channel : ℕ) : (programs channel).Restores (occupancy channel)
    (fun v => Free v ∨ Taken v) Inside where
  callable k args s hs := by
    cases k with
    | inr f =>
      have hcalm : ((programs channel).callable (.inr f) args).Calm (occupancy channel) := by
        refine .bind (Task.calm_overlooks.function (fun _ _ => rfl) args f.body) fun r => ?_
        cases r <;> exact .pure _
      exact (hcalm _).steps s rfl
    | inl mode =>
      show (serve channel mode args s).Maintains _ _ _
      cases hcode : args.head?.bind Value.asStr? with
      | none =>
        simp only [serve, hcode]
        exact rfl
      | some code =>
        simp only [serve, hcode]
        rcases hs with hfree | htaken
        · rw [runSource_free hfree]
          exact ((maintains_acceptedRun channel mode code).steps s hfree).mono
            (fun _ hu => ⟨hfree, hu⟩) fun _ _ hu => hu.trans hfree.symm
        · rw [runSource_taken htaken]
          exact rfl
  good k v u hv hu := by
    cases k with
    | inl mode => exact .inr hu.2
    | inr f => exact hu ▸ hv
  heap _ _ := rfl

/-! ## A worker at work -/

/-- A new worker is not in a run. -/
lemma free_bootWorker {name : String} {factory : Factory} {version : Option String}
    {s' : EnvironmentState} {w : WorkerContext} (hchannel : channel < s'.workers.size)
    (h : s.bootWorker name factory version config = (.ok w, s')) :
    Free (occupancy channel (s'.updateWorker channel fun _ => w)) := by
  have hw : w.busy = false ∧ w.context.lifecycle.runs = [] := by
    unfold EnvironmentState.bootWorker at h
    dsimp only at h
    split at h
    · cases h
    · split at h
      · cases h
      · split at h
        · cases h
        · obtain ⟨hw, -⟩ := Prod.mk.inj h
          obtain rfl := Except.ok.inj hw
          exact ⟨rfl, rfl⟩
  have hcontext : (s'.updateWorker channel fun _ => w).workers[channel]? = some w := by
    rw [EnvironmentState.updateWorker, Array.getElem?_modify, if_pos rfl,
      Array.getElem?_eq_getElem hchannel]
    rfl
  simp [Free, occupancy, hcontext, hw]

/-- The calls to run that are being served. -/
def openRuns (log : List (Event HostMethod RunMode)) : OpenCalls RunMode :=
  (openCalls log).filter fun c => c.2.any Sum.isLeft

/-- A worker's thread at work, from a new context on. Its queues are used by its host as it likes,
and others work on the state, but not on the worker's context. -/
inductive AtWork (channel : ℕ) :
    WorkerSide EnvironmentState RunMode Unit → List (Event HostMethod RunMode) → Prop
  | new {name s} (h : Free (occupancy channel s)) :
      AtWork channel ⟨⟨.new name, [], .idle⟩, .new, s⟩ []
  /-- the first computation, which calls the callbacks for `onReady` -/
  | boot {w log} (before : AtWork channel w log) (h : w.isListening = false) :
      AtWork channel (w.start (becomeReady channel))
        (log ++ w.baseEvents (becomeReady channel w.state))
  | serve {w log} (before : AtWork channel w log) (h : w.isListening = false) :
      AtWork channel { w with thread := { w.thread with base := .serving } } log
  /-- the thread takes a message, or goes on with what waits -/
  | move {w w' log} (before : AtWork channel w log) (h : w.move? (programs channel) = some w') :
      AtWork channel w' (log ++ w.moveEvents (programs channel))
  | manage {w log e} (before : AtWork channel w log) (h : w.endpoint.Managed e) :
      AtWork channel (w.setEndpoint e) log
  | close {w log} (before : AtWork channel w log) : AtWork channel w.close log
  | peer {w log l} (before : AtWork channel w log) (h : w.link.Handled l) :
      AtWork channel { w with link := l } log
  | elsewhere {w log s} (before : AtWork channel w log) (h : Undisturbed channel w.state s) :
      AtWork channel { w with state := s } log

/-- What another worker serves leaves this one alone at any time. -/
theorem calm_serve_elsewhere {other : ℕ} (hother : other ≠ channel) (mode : RunMode)
    (args : List Value) : (serve other mode args).Calm (·.workers[channel]?) := by
  refine Task.calm_overlooks.serve ⟨fun _ _ => rfl, fun _ _ => rfl, fun _ _ => rfl,
    fun s f _ => ?_⟩ mode args
  rw [EnvironmentState.updateWorker, Array.getElem?_modify, if_neg hother]

variable {w w' : WorkerSide EnvironmentState RunMode Unit} {log : List (Event HostMethod RunMode)}

lemma AtWork.orderly (h : AtWork channel w log) :
    w.Orderly (occupancy channel) Inside (some (false, [])) (openCalls log) := by
  induction h with
  | new h => exact ⟨h ▸ .nil, nofun⟩
  | @boot w log before h ih =>
    have hframes := (WorkerSide.callIds_of_not_listening h).1
    obtain ⟨hview, hcalls⟩ := (hframes ▸ ih.frames).of_nil
    rw [openCalls_append, hcalls, WorkerSide.opens_baseEvents]
    exact .runBase hframes ((calm_becomeReady channel _).steps _ hview)
  | serve before h ih => exact ⟨ih.frames, nofun⟩
  | move before h ih =>
    rw [openCalls_append]
    exact ih.move (restores channel) (.inl rfl) h
  | manage before h ih => exact ih.congr rfl rfl rfl
  | @close w log before ih =>
    unfold WorkerSide.close
    split
    · exact ih
    · exact ih.congr rfl rfl rfl
  | peer before h ih => exact ih.congr rfl rfl rfl
  | elsewhere before h ih => exact ih.congr rfl rfl (congrArg (Option.map _) h)

/-- Wherever the stack is, at most one of its calls is a run, and the interpreter is in use exactly
then. -/
lemma openRuns_of_stacked {v v₀ : Option Occupancy} {calls : OpenCalls RunMode}
    {frames : List (Frame EnvironmentState)} (h₀ : Free v₀)
    (h : WorkerSide.Stacked (occupancy channel) Inside v₀ v calls frames) :
    Free v ∧ calls.filter (·.2.any Sum.isLeft) = [] ∨
      Taken v ∧ ∃ c, calls.filter (·.2.any Sum.isLeft) = [c] := by
  induction h with
  | nil => exact .inl ⟨h₀, rfl⟩
  | @cons v u k calls f frames below hu hf ih =>
    cases k with
    | inr g =>
      obtain rfl : u = v := hu
      exact ih
    | inl mode =>
      obtain ⟨hfree, htaken⟩ := hu
      rcases ih with ⟨-, hnone⟩ | ⟨⟨runs, hruns, -⟩, -⟩
      · refine .inr ⟨htaken, (f.answering, some (.inl mode)), ?_⟩
        rw [List.filter_cons_of_pos rfl, hnone]
      · cases hruns.symm.trans hfree

/-- The next message that a thread takes is a call to run. -/
structure RunCalled (w : WorkerSide EnvironmentState RunMode Unit) (q : Queue) (id : CallId)
    (mode : RunMode) (wire : Wire) : Prop where
  listening : w.isListening = true
  next : w.top?.bind w.endpoint.aside? = none
  received : ∃ target, w.link.toWorker.receive = .message (.call id target wire) q ∧
    w.endpoint.handlerFor target = some (.inl mode)

/-- The source text of a call to run, or why it has none, and the heap that is left. -/
def sourceText (mode : RunMode) (h : Heap) (wire : Wire) : Except RemoteError String × Heap :=
  match unpackArgs h wire with
  | .error e => (.error ⟨"TypeError", e.message⟩, h)
  | .ok (args, h) =>
    match args.head?.bind Value.asStr? with
    | some code => (.ok code, h)
    | none => (.error ⟨"TypeError", mode.method ++ " expects source text"⟩, h)

/-- A call is answered at once with an error, and goes without a trace: the thread has the same
calls under way and goes on with them in the same state, except that the arguments are now at the
end of the heap. -/
structure Refused (w w' : WorkerSide EnvironmentState RunMode Unit) (q : Queue) (id : CallId)
    (e : RemoteError) : Prop where
  thread : w'.thread = w.thread
  state : ∃ args, w'.state =
    { w.state with heap := { w.state.heap with objects := w.state.heap.objects ++ args } }
  /-- the answer is sent, if there is still somebody to receive it -/
  link : w'.link = ⟨q, (w.link.toHost.send? (.fail id e)).getD w.link.toHost⟩

/-- The thread once it has begun to serve a call with a run of its own. -/
def accepted (channel : ℕ) (w : WorkerSide EnvironmentState RunMode Unit) (q : Queue) (id : CallId)
    (mode : RunMode) (code : String) (h : Heap) : WorkerSide EnvironmentState RunMode Unit :=
  WorkerSide.runHandler id { w with link := { w.link with toWorker := q } }
    (acceptedRun channel mode code { w.state with heap := h })

variable {q : Queue} {id : CallId} {wire : Wire} {h : Heap} {e : RemoteError}

/-- Reading a call to run adds to the heap. -/
lemma exists_sourceText_heap (mode : RunMode) (h : Heap) (wire : Wire) :
    ∃ args, (sourceText mode h wire).2 = { h with objects := h.objects ++ args } := by
  unfold sourceText
  rw [unpackArgs_eq]
  cases hdecode : Wire.decode h wire with
  | error e => exact ⟨#[], by simp [Except.map]⟩
  | ok p =>
    rw [Wire.decode_eq (Wire.closed_of_decode hdecode)] at hdecode
    obtain rfl := Except.ok.inj hdecode
    dsimp only [Except.map]
    split <;> exact ⟨_, rfl⟩

lemma refused_post (hread : (sourceText mode w.state.heap wire).2 = h) :
    Refused w (({ w with
      link := { w.link with toWorker := q }
      state := { w.state with heap := h } } : WorkerSide EnvironmentState RunMode Unit).post
        (.fail id e)) q id e := by
  obtain ⟨args, hargs⟩ := exists_sourceText_heap mode w.state.heap wire
  obtain rfl := hread.symm.trans hargs
  unfold WorkerSide.post
  cases hsend : w.link.toHost.send? (.fail id e) with
  | none => exact ⟨rfl, ⟨args, rfl⟩, by rw [hsend]; rfl⟩
  | some q' => exact ⟨rfl, ⟨args, rfl⟩, by rw [hsend]; rfl⟩

/-- A call to run is served with its source text, or answered with why there is none. -/
lemma serveCall_eq {target : Target} (hfound : w.endpoint.handlerFor target = some (.inl mode)) :
    w.serveCall (programs channel) id target wire =
      match sourceText mode w.state.heap wire with
      | (.error e, h) => ({ w with state := { w.state with heap := h } }).post (.fail id e)
      | (.ok code, h) =>
        WorkerSide.runHandler id w (runSource channel mode code { w.state with heap := h }) := by
  have hheap : HasHeap.heap w.state = w.state.heap := rfl
  unfold WorkerSide.serveCall sourceText
  simp only [Inbound.of, hfound, hheap]
  cases hread : unpackArgs w.state.heap wire with
  | error e => rfl
  | ok p =>
    obtain ⟨args, h⟩ := p
    dsimp only
    show WorkerSide.runHandler id w (serve channel mode args { w.state with heap := h }) = _
    cases hcode : args.head?.bind Value.asStr? with
    | none =>
      simp only [serve, hcode]
      rfl
    | some code => simp only [serve, hcode]

/-- The thread takes a call to run at once. -/
lemma RunCalled.move (hcall : RunCalled w q id mode wire) :
    w.move? (programs channel) = some
      (match sourceText mode w.state.heap wire with
      | (.error e, h) => ({ w with
          link := { w.link with toWorker := q }
          state := { w.state with heap := h } } : WorkerSide EnvironmentState RunMode Unit).post
            (.fail id e)
      | (.ok code, h) => WorkerSide.runHandler id { w with link := { w.link with toWorker := q } }
          (runSource channel mode code { w.state with heap := h })) := by
  obtain ⟨target, hreceive, hfound⟩ := hcall.received
  unfold WorkerSide.move?
  rw [if_pos hcall.listening, hcall.next]
  dsimp only
  rw [hreceive]
  exact congrArg some (serveCall_eq hfound)

lemma kind_of_sourceText {e : RemoteError} (hsource : (sourceText mode h wire).1 = .error e) :
    e.kind = "TypeError" := by
  unfold sourceText at hsource
  split at hsource
  · obtain rfl := Except.error.inj hsource
    rfl
  · split at hsource
    · cases hsource
    · obtain rfl := Except.error.inj hsource
      rfl

namespace RunCalled
variable (hcall : RunCalled w q id mode wire)
include hcall

lemma accepted (hsource : sourceText mode w.state.heap wire = (.ok code, h))
    (hfree : Free (occupancy channel w.state)) :
    w.move? (programs channel) = some (accepted channel w q id mode code h) := by
  have hrun : runSource channel mode code { w.state with heap := h } = _ := runSource_free hfree
  rw [hcall.move, hsource]
  dsimp only
  rw [hrun]
  rfl

lemma refused (hsource : (sourceText mode w.state.heap wire).1 = .ok code)
    (htaken : Taken (occupancy channel w.state)) :
    ∃ w', w.move? (programs channel) = some w' ∧ Refused w w' q id busyError := by
  rcases hread : sourceText mode w.state.heap wire with ⟨r, h⟩
  rw [hread] at hsource
  obtain rfl : r = .ok code := hsource
  have hrun : runSource channel mode code { w.state with heap := h } = _ := runSource_taken htaken
  refine ⟨_, hcall.move, ?_⟩
  rw [hread]
  dsimp only
  rw [hrun]
  exact refused_post (congrArg Prod.snd hread)

lemma textless (hsource : (sourceText mode w.state.heap wire).1 = .error e) :
    ∃ w', w.move? (programs channel) = some w' ∧ Refused w w' q id e := by
  rcases hread : sourceText mode w.state.heap wire with ⟨r, h⟩
  rw [hread] at hsource
  obtain rfl : r = .error e := hsource
  refine ⟨_, hcall.move, ?_⟩
  rw [hread]
  exact refused_post (congrArg Prod.snd hread)

end RunCalled

/-- The interpreter of a worker is in use exactly while a call to run is being served. -/
lemma AtWork.free_or_taken (hwork : AtWork channel w log) :
    Free (occupancy channel w.state) ∧ openRuns log = [] ∨
      Taken (occupancy channel w.state) ∧ ∃ c, openRuns log = [c] :=
  openRuns_of_stacked rfl hwork.orderly.frames

/-- A worker runs one source text at a time. -/
structure Exclusive (channel : ℕ) (w : WorkerSide EnvironmentState RunMode Unit)
    (log : List (Event HostMethod RunMode)) : Prop where
  /-- at most one call to run is being served -/
  one : (openRuns log).length ≤ 1
  /-- and the lifecycle has no other run -/
  active : (w.state.worker channel).context.lifecycle.activeRuns ≤ (openRuns log).length
  /-- meanwhile another call to run is refused, without a trace -/
  refused : ∀ q id mode wire code, RunCalled w q id mode wire →
    (sourceText mode w.state.heap wire).1 = .ok code → openRuns log ≠ [] →
    ∃ w', w.move? (programs channel) = some w' ∧ Refused w w' q id busyError
  /-- and so is a call without source text at any time, although for that reason -/
  textless : ∀ q id mode wire e, RunCalled w q id mode wire →
    (sourceText mode w.state.heap wire).1 = .error e →
    e.kind = "TypeError" ∧ ∃ w', w.move? (programs channel) = some w' ∧ Refused w w' q id e
  /-- when no call to run is being served, the next one with source text is accepted -/
  accepted : ∀ q id mode wire code h, RunCalled w q id mode wire →
    sourceText mode w.state.heap wire = (.ok code, h) → openRuns log = [] →
    w.move? (programs channel) = some (accepted channel w q id mode code h)

/-- Whatever calls arrive at a worker, in whatever order and depth, and however the runs end. -/
theorem AtWork.exclusive (hwork : AtWork channel w log) : Exclusive channel w log := by
  rcases hwork.free_or_taken with ⟨hfree, hnone⟩ | ⟨htaken, c, hone⟩
  · have hruns := (busy_of_occupancy hfree).2
    exact {
      one := by rw [hnone]; exact Nat.zero_le 1
      active := by rw [Lifecycle.activeRuns, hruns]; exact Nat.zero_le _
      refused := fun _ _ _ _ _ _ _ hopen => absurd hnone hopen
      textless := fun _ _ _ _ _ hcall hsource =>
        ⟨kind_of_sourceText hsource, hcall.textless hsource⟩
      accepted := fun _ _ _ _ _ _ hcall hsource _ => hcall.accepted hsource hfree }
  · obtain ⟨runs, hruns, hlength⟩ := htaken
    exact {
      one := by rw [hone]; exact Nat.le_refl 1
      active := by
        rw [Lifecycle.activeRuns, (busy_of_occupancy hruns).2, hone]
        exact hlength
      refused := fun _ _ _ _ _ hcall hsource _ => hcall.refused hsource ⟨runs, hruns, hlength⟩
      textless := fun _ _ _ _ _ hcall hsource =>
        ⟨kind_of_sourceText hsource, hcall.textless hsource⟩
      accepted := fun _ _ _ _ _ _ _ _ hclosed => absurd (hone.symm.trans hclosed) nofun }

/-! ## A run that waits for a line -/

/-- The end of a worker with one method. -/
def runEndpoint : WorkerEndpoint RunMode :=
  { name := "worker-1", nextId := 1, closed := false, depth := 0
    handlers := ⟨[(Method.run, .sync)]⟩, refs := .empty, outstanding := [], stash := [] }

/-- A call of `run` with one argument. -/
def runCall (id : CallId) (arg : Slot) : Message :=
  .call id (.method Method.run) ⟨.ref 0, [.list [arg]]⟩

/-- A worker that is called to run a script that asks for a line, and then once more. -/
def calledTwice (arg : Slot) : WorkerSide EnvironmentState RunMode Unit where
  thread := ⟨runEndpoint, [], .serving⟩
  link := ⟨⟨[runCall ⟨1⟩ (.str "input x"), runCall ⟨2⟩ arg], true, true⟩, .new⟩
  state := oneWorker

lemma atWork_calledTwice (arg : Slot) : AtWork 0 (calledTwice arg) [] := by
  have hnew : AtWork 0 ⟨⟨.new "worker-1", [], .idle⟩, .new, oneWorker⟩ [] := .new rfl
  have hregister : (WorkerEndpoint.new "worker-1").register Method.run RunMode.sync =
    .ok runEndpoint := rfl
  exact (((hnew.manage (.register hregister)).serve rfl).peer (.send rfl)).peer (.send rfl)

/-- The script waits, with the interpreter in use. -/
lemma acceptedRun_input : ∃ s resume,
    acceptedRun 0 .sync "input x" (oneWorker.withText "input x") =
      .ask ⟨.method Method.read, []⟩ s resume ∧ Taken (occupancy 0 s) := by
  obtain ⟨s, resume, hask⟩ : ∃ s resume,
      acceptedRun 0 .sync "input x" (oneWorker.withText "input x") =
        .ask ⟨.method Method.read, []⟩ s resume := ⟨_, _, rfl⟩
  have hmaintains := (maintains_acceptedRun 0 .sync "input x").steps
    (oneWorker.withText "input x") rfl
  rw [hask] at hmaintains
  exact ⟨s, resume, hask, hmaintains.1⟩

/-- The worker after it has taken the first call, at a state and with a way to go on. -/
def waitingOnce (arg : Slot) (args : Wire) (s : EnvironmentState)
    (resume : CallOutcome → EnvironmentState →
      WorkerStep EnvironmentState (Except RemoteError Value)) :
    WorkerSide EnvironmentState RunMode Unit where
  thread := ⟨{ runEndpoint with nextId := 2, depth := 1, outstanding := [⟨1⟩] },
    [⟨⟨1⟩, ⟨1⟩, resume⟩], .serving⟩
  link := ⟨⟨[runCall ⟨2⟩ arg], true, true⟩,
    Queue.new.push (.call ⟨1⟩ (.method Method.read) args)⟩
  state := s

/-- The first call is accepted, and waits for its line. -/
lemma exists_move_calledTwice (arg : Slot) : ∃ args s resume,
    (calledTwice arg).move? (programs 0) = some (waitingOnce arg args s resume) ∧
      Taken (occupancy 0 s) := by
  have hcall : RunCalled (calledTwice arg) ⟨[runCall ⟨2⟩ arg], true, true⟩ ⟨1⟩ .sync
      ⟨.ref 0, [.list [.str "input x"]]⟩ := ⟨rfl, rfl, .method Method.run, rfl, rfl⟩
  have hsource : sourceText .sync oneWorker.heap ⟨.ref 0, [.list [.str "input x"]]⟩ =
      (.ok "input x", (oneWorker.withText "input x").heap) := by
    simp only [sourceText, unpackArgs_str]
    rfl
  have hfree : Free (occupancy 0 (calledTwice arg).state) := rfl
  obtain ⟨s, resume, hask, htaken⟩ := acceptedRun_input
  obtain ⟨args, hpack⟩ := Pair.exists_packArgs_nil s.heap
  refine ⟨args, s, resume, (hcall.accepted hsource hfree).trans (congrArg some ?_), htaken⟩
  exact (congrArg (WorkerSide.runHandler _ _) hask).trans
    (WorkerSide.runHandler_ask ⟨rfl, rfl, rfl, rfl, rfl⟩ hpack)

/-- While it waits, the other call is next. -/
lemma exists_runCalled (arg : Slot) : ∃ w log, AtWork 0 w log ∧ openRuns log ≠ [] ∧
    RunCalled w ⟨[], true, true⟩ ⟨2⟩ .sync ⟨.ref 0, [.list [arg]]⟩ ∧
    ∀ m, w.link.toHost.send? m = some (w.link.toHost.push m) := by
  obtain ⟨args, s, resume, hmove, runs, hruns, -⟩ := exists_move_calledTwice arg
  have hwork := (atWork_calledTwice arg).move hmove
  refine ⟨_, _, hwork, ?_, ⟨rfl, rfl, .method Method.run, rfl, rfl⟩, fun _ => rfl⟩
  rcases hwork.free_or_taken with ⟨hfree, -⟩ | ⟨-, c, hone⟩
  · cases hruns.symm.trans hfree
  · rw [hone]
    exact List.cons_ne_nil _ _

theorem exclusive_input : ∃ w w' log, AtWork 0 w log ∧ openRuns log ≠ [] ∧
    w.move? (programs 0) = some w' ∧ Refused w w' ⟨[], true, true⟩ ⟨2⟩ busyError := by
  obtain ⟨w, log, hwork, hopen, hcall, -⟩ := exists_runCalled (.str "print hi")
  have hsource : (sourceText .sync w.state.heap ⟨.ref 0, [.list [.str "print hi"]]⟩).1 =
      .ok "print hi" := by
    simp only [sourceText, unpackArgs_str]
    rfl
  obtain ⟨w', hmove, hrefused⟩ := hwork.exclusive.refused _ _ _ _ _ hcall hsource hopen
  exact ⟨w, w', log, hwork, hopen, hmove, hrefused⟩

/-- A call whose argument is a number, while a run waits for its line: the answer is no
`RuntimeError`. -/
theorem not_every_call_busy : ∃ w w' log q id mode wire, AtWork 0 w log ∧ openRuns log ≠ [] ∧
    RunCalled w q id mode wire ∧ w.move? (programs 0) = some w' ∧
    w'.link.toHost.messages =
      w.link.toHost.messages ++ [.fail id ⟨"TypeError", "run expects source text"⟩] := by
  obtain ⟨w, log, hwork, hopen, hcall, hsend⟩ := exists_runCalled (.int 5)
  have hsource : (sourceText .sync w.state.heap ⟨.ref 0, [.list [.int 5]]⟩).1 =
      .error ⟨"TypeError", "run expects source text"⟩ := by
    have hread : unpackArgs w.state.heap ⟨.ref 0, [.list [.int 5]]⟩ = _ := unpackArgs_plain rfl
    simp only [sourceText, hread]
    rfl
  obtain ⟨w', hmove, hrefused⟩ := hcall.textless hsource
  refine ⟨w, w', log, _, _, _, _, hwork, hopen, hcall, hmove, ?_⟩
  rw [hrefused.link, hsend]
  rfl

end WorkerContext
end WorkerHost
