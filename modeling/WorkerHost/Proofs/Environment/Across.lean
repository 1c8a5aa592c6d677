import WorkerHost.Proofs.Channel.Flow
import WorkerHost.Proofs.Environment.Reports
import WorkerHost.Proofs.Environment.Steady

/-!
# Runs across contexts

A run that the host drives has events in two contexts. To speak of them, both parts are run with a
transcript of their stages, `transcribedDrive` and `WorkerContext.transcribedSource`, which do what
`drive` and `WorkerContext.runSource` do, and the events of the worker are put where the host has
the body of its run, `combinedTrace`.

* `drive_events`: the host calls its callbacks before the call and after it, whatever the call
  comes to, and the run has the outcome of the call;
* `WorkerContext.source_events`: the worker has the events of a run with its registry;
* `drive_across`: a worker that is called in between runs the code of the host, and what it answers
  is what the run comes to.
-/

namespace WorkerHost

variable {channel : ℕ} {config : Value} {source code : String} {mode : RunMode}
  {s s' : EnvironmentState} {between : EnvironmentState → EnvironmentState → Prop}

/-! ## Transcripts of both parts -/

/-- A computation with a further state that begins with one that asks nothing. -/
lemma Task.run_lift_bind {σ Q τ α β : Type} {R : Q → Type} {x : Task σ Q R α} {s s' : σ} {a : α}
    (h : x s = .done a s') (f : α → StateT τ (Task σ Q R) β) (t : τ) :
    (liftM x >>= f : StateT τ (Task σ Q R) β).run t s = (f a).run t s' := by
  show ((x s).bind _).bind _ = _
  rw [h]
  rfl

/-- A course of a computation is one of the computation that keeps a transcript. -/
lemma Stage.exists_transcript {σ Q C α : Type} {R : Q → Type} {between : σ → σ → Prop} {s s' : σ}
    {x : StateT (List (StageExchange C)) (Task σ Q R) α} {y : Task σ Q R α}
    {log : List ((q : Q) × R q)} {a : α} (hx : Stage.transcripts.rel x y)
    (h : (y s).Course between log a s') : ∃ es, (x.run [] s).Course between log (a, es) s' := by
  rw [← hx []] at h
  obtain ⟨_, ⟨a', es⟩, s₁, _, rfl, hfirst, hrest⟩ := Step.course_bind.1 h
  obtain ⟨rfl, rfl, rfl⟩ := Step.course_done.1 hrest
  rw [List.append_nil]
  exact ⟨es, hfirst⟩

/-- A run that the host drives, with the transcript of its stage. The body stands for the part of
the worker. -/
def transcribedDrive (channel : ℕ) (config : Value) (source code : String) (mode : RunMode) :
    StateT (List (StageExchange Callback)) (HostTask EnvironmentState)
      (Except RunError Value) := do
  let b := hostBinding config
  let run ← liftM (b.descriptor source mode)
  b.stage.transcribed.ensureReadyAsync run
  b.stage.transcribed.around mode run (Stage.noted .body do
    return (← callWorker channel (.method mode.method) [.str code]).mapError RunError.ofChannel)

lemma transcripts_drive (channel : ℕ) (config : Value) (source code : String) (mode : RunMode) :
    Stage.transcripts.rel (transcribedDrive channel config source code mode)
      (drive channel config source code mode) := by
  refine Stage.transcripts.bind (Stage.transcripts_lift _) fun run => ?_
  have hparts := ((hostBinding config).stage.transcribed_lockstep).parts mode run
  exact Stage.transcripts.bind hparts.ensureReadyAsync fun _ =>
    hparts.around (Stage.transcripts_noted .body _)

namespace WorkerContext

/-- What a worker does with source text, with the transcript of its run. -/
def transcribedSource (channel : ℕ) (mode : RunMode) (code : String) :
    StateT (List (StageExchange Callback)) (WorkerTask EnvironmentState)
      (Except RemoteError Value) := do
  let w := (← liftM (get : WorkerTask EnvironmentState EnvironmentState)).worker channel
  if w.busy then return .error busyError
  else do
    liftM (setBusy channel true)
    let b := binding channel w.config
    let outcome ← b.stage.transcribed.run mode (← liftM (b.descriptor w.name mode)) code
    liftM (setBusy channel false)
    return outcome.mapError RunError.toRemote

lemma transcripts_source (channel : ℕ) (mode : RunMode) (code : String) :
    Stage.transcripts.rel (transcribedSource channel mode code) (runSource channel mode code) := by
  refine Stage.transcripts.bind (Stage.transcripts_lift _) fun s => ?_
  dsimp only
  split
  · exact Stage.transcripts.pure _
  · refine Stage.transcripts.bind (Stage.transcripts_lift _) fun _ => ?_
    refine Stage.transcripts.bind (Stage.transcripts_lift _) fun run => ?_
    refine Stage.transcripts.bind (Stage.transcribed_lockstep _ |>.wholeRun mode run code) ?_
    exact fun _ => Stage.transcripts.bind (Stage.transcripts_lift _) fun _ =>
      Stage.transcripts.pure _

end WorkerContext

/-! ## The call -/

/-- A text arrives as it was sent, and the answer as the wire carries it. -/
lemma Story.text_arrives {id : CallId} {target : Target} {h₀ h₁ h₂ h₃ h₄ : Heap} {wire : Wire}
    {found : Option (RunMode ⊕ Function)} {k : RunMode ⊕ Function} {args : List Value}
    {answer : Except RemoteError Value} {o : CallOutcome}
    (story : Story "worker" id (.aside o) [.issued target [.str code] h₀,
      .served target wire h₁ found, .ran k args h₂, .answered answer h₃, .received h₄ o]) :
    args = [.str code] ∧ Transported h₃ h₄ answer o := by
  obtain ⟨_, xs, h, _, _, _, runs, r, h', h'', hpack, hserved, htransported, hpast⟩ :=
    story.eq_of_aside
  cases hserved with
  | unknown => cases hpast
  | ran hunpack =>
    cases hpast
    rw [packArgs_str] at hpack
    obtain rfl := Except.ok.inj hpack
    rw [unpackArgs_str] at hunpack
    obtain ⟨rfl, -⟩ := Prod.mk.inj (Except.ok.inj hunpack)
    exact ⟨rfl, htransported⟩

/-- A call of one text can be sent and served, whatever the text. -/
lemma Story.of_text {id : CallId} {target : Target} {k : RunMode ⊕ Function}
    {h₀ h₁ h₂ h₃ h₄ : Heap} {answer : Except RemoteError Value} {o : CallOutcome}
    (hread : (answerTo h₂ id answer).outcome? h₃ = some (o, h₄)) :
    Story "worker" id (.aside o) [.issued target [.str code] h₀,
      .served target ⟨.ref 0, [.list [.str code]]⟩ h₁ (some k),
      .ran k [.str code] (h₁.newList [.str code]).2,
      .answered answer h₂, .received h₃ o] := by
  have hrun : Inbound.of "worker" h₁ (some k) target ⟨.ref 0, [.list [.str code]]⟩ =
      .run k [.str code] (h₁.newList [.str code]).2 := by
    simp only [Inbound.of, unpackArgs_str]
  exact ((((Story.issue (packArgs_str h₀ code)).advance .take).advance (.serve hrun)).advance
    .answer).advance (.receive hread)

/-! ## The host's part -/

/-- The events of both contexts in their order. Those of the worker come where the host has the body
of its run, as this is when the host waits for it. -/
def combinedTrace (channel : ℕ) (worker : List (RunEvent Callback))
    (host : List (StageExchange Callback)) : List (ContextId × RunEvent Callback) :=
  host.flatMap fun e =>
    match e.1 with
    | .body => worker.map (.worker channel, ·)
    | _ => e.event?.toList.map (.own, ·)

section
variable {worker : List (RunEvent Callback)} {es es' : List (StageExchange Callback)}

lemma combinedTrace_append : combinedTrace channel worker (es ++ es') =
    combinedTrace channel worker es ++ combinedTrace channel worker es' :=
  List.flatMap_append

lemma combinedTrace_of_forall (hes : ∀ e ∈ es, e.1 ≠ .body) :
    combinedTrace channel worker es = (RunEvent.ofTranscript es).map (.own, ·) := by
  rw [combinedTrace, RunEvent.ofTranscript, List.filterMap_eq_flatMap_toList, List.map_flatMap]
  refine List.flatMap_congr fun e he => ?_
  split
  · cases hes e he ‹_›
  · rfl

end

/-- A failure is shown, unless a worker has answered with it. -/
lemma Behaviour.run_reportFailure {C ω : Type} (b : Behaviour C ω)
    (outcome : Except RunError Value) (t : Recorded C ω) : (b.stage.reportFailure outcome).run t =
      ((), { t with trace := t.trace ++ (ownReport outcome).map .notified }) := by
  match outcome with
  | .error (.hookCode _ _) | .error (.execution _) | .error (.transport _) => rfl
  | .ok _ | .error (.remote _) =>
    show ((), t) = _
    rw [ownReport, List.map_nil, List.append_nil]

section
variable {run : RunDescriptor} {r : Registry Callback} {l : Lifecycle}
  {es es' : List (StageExchange Callback)} {log : List ((q : HostAsk) × q.Answer)}

lemma replaying_host (between : EnvironmentState → EnvironmentState → Prop) (config : Value)
    (mode : RunMode) (run : RunDescriptor) (hr : r.Passive) :
    Stage.PartsLockstep (replaying between .own r) (hostBinding config).stage.transcribed
      (Behaviour.replay Callback.name false).stage mode run :=
  (steady_hostBinding config).parts hr

/-- All that comes before the call. -/
lemma before_events (hr : r.Passive) (hs : s.context? .own = some ⟨r, l⟩)
    {result : Except RunError Unit}
    (h : (((hostBinding config).stage.transcribed.ensureReadyAsync run >>= fun _ =>
      (hostBinding config).stage.transcribed.beforeRun mode run).run es s).Course between log
        (result, es') s') :
    ∃ new ready calls, es' = es ++ new ∧ (∀ e ∈ new, e.1 ≠ .body) ∧ result = .ok () ∧
      s'.context? .own = some ⟨r, Behaviour.during l run .executing⟩ ∧
      RunEvent.ofTranscript new = ready ++ calls ∧
      (if l.ready then ready = []
        else RunEvent.InTurn Callback.name .onReady (r.callbacksOf .onReady) ready) ∧
      RunEvent.InTurn Callback.name mode.phases.before
        (r.callbacksOf mode.phases.before) calls := by
  have hparts := replaying_host between config mode run hr
  obtain ⟨new, l', rfl, hbody, hl', hy⟩ :=
    (replaying between .own r).bind hparts.ensureReadyAsync (fun _ => hparts.beforeRun)
      es s log result es' s' l hs h
  -- the replay has one trace, so the events are those of this trace
  obtain ⟨ready, calls, x, hrun, hready, hcalls⟩ :=
    Behaviour.replay_before Callback.name mode run l r (RunEvent.endings new ++ [])
  obtain ⟨rfl, heq⟩ := Prod.mk.inj ((hy [] []).symm.trans hrun)
  obtain ⟨rfl, -, hevents⟩ := Recorded.mk.inj heq
  exact ⟨new, ready, calls, rfl, hbody, rfl, hl', hevents, hready, hcalls⟩

/-- The call, which stands for the body in the transcript. -/
lemma call_events {outcome : Except RunError Value}
    (h : ((Stage.noted (C := Callback) .body do
        return (← callWorker channel (.method mode.method) [.str code]).mapError
          RunError.ofChannel).run es s).Course between log (outcome, es') s') :
    ∃ o, log = [⟨.call channel (.method mode.method) [.str code], o⟩] ∧
      outcome = o.mapError RunError.ofChannel ∧ es' = es ++ [⟨.body, outcome⟩] ∧ between s s' := by
  obtain ⟨_, outcome', s₁, _, rfl, hcall, hnoted⟩ := Step.course_bind.1 h
  obtain ⟨rfl, hes, rfl⟩ := Step.course_done.1 hnoted
  obtain ⟨rfl, rfl⟩ := Prod.mk.inj hes
  obtain ⟨o, s₂, _, rfl, hother, hreturn⟩ := Step.course_ask.1 hcall
  obtain ⟨rfl, rfl, rfl⟩ := Step.course_done.1 hreturn
  exact ⟨o, rfl, rfl, rfl, hother⟩

/-- All that comes after it. -/
lemma after_events (hr : r.Passive) (hs : s.context? .own = some ⟨r, l⟩)
    {outcome result : Except RunError Value}
    (h : (((hostBinding config).stage.transcribed.reportFailure outcome >>= fun _ =>
      (hostBinding config).stage.transcribed.afterRun mode run outcome).run es s).Course between log
        (result, es') s') :
    ∃ new calls, es' = es ++ new ∧ (∀ e ∈ new, e.1 ≠ .body) ∧ result = outcome ∧
      s'.context? .own = some ⟨r, l.leave run⟩ ∧
      RunEvent.ofTranscript new = (ownReport outcome).map .notified ++ calls ∧
      RunEvent.InTurn Callback.name mode.phases.after (r.callbacksOf mode.phases.after) calls := by
  have hparts := replaying_host between config mode run hr
  -- others may have run in the meantime, so `l` is whatever they have left
  obtain ⟨new, l', rfl, hbody, hl', hy⟩ :=
    (replaying between .own r).bind (hparts.reportFailure outcome)
      (fun _ => hparts.afterRun outcome) es s log result es' s' l hs h
  obtain ⟨calls, x, hrun, hcalls⟩ :=
    Behaviour.replay_after Callback.name mode run outcome l r (RunEvent.endings new ++ [])
      ([] ++ (ownReport outcome).map .notified)
  have hy := hy [] []
  rw [run_bind_of_run (Behaviour.run_reportFailure _ _ _)] at hy
  obtain ⟨rfl, heq⟩ := Prod.mk.inj (hy.symm.trans hrun)
  obtain ⟨rfl, -, hevents⟩ := Recorded.mk.inj heq
  exact ⟨new, calls, rfl, hbody, rfl, hl', hevents, hcalls⟩

end

/-- What the runs of the host find in its context: the hooks, and whether the gate is open. -/
def ContextState.gated (c : ContextState) : Registry Callback × Bool :=
  (c.registry, c.lifecycle.ready)

/-- The host calls its callbacks before the call and after it, and its run ends as the call does. -/
lemma drive_events (hr : s.own.registry.Passive)
    (hbetween : ∀ s s', between s s' → s'.own.gated = s.own.gated) {o : CallOutcome}
    {result : Except RunError Value} {host : List (StageExchange Callback)}
    (h : ((transcribedDrive channel config source code mode).run [] s).Course between
      [⟨.call channel (.method mode.method) [.str code], o⟩] (result, host) s') :
    ∃ ready calls after,
      (if s.own.lifecycle.ready then ready = []
        else RunEvent.InTurn Callback.name .onReady (s.own.registry.callbacksOf .onReady) ready) ∧
      RunEvent.InTurn Callback.name mode.phases.before
        (s.own.registry.callbacksOf mode.phases.before) calls ∧
      RunEvent.InTurn Callback.name mode.phases.after
        (s.own.registry.callbacksOf mode.phases.after) after ∧
      result = o.mapError RunError.ofChannel ∧ s'.own.lifecycle.ready = true ∧
      ∀ worker, combinedTrace channel worker host =
        (ready ++ calls).map (.own, ·) ++ worker.map (.worker channel, ·) ++
          ((ownReport result).map RunEvent.notified ++ after).map (.own, ·) := by
  obtain ⟨run, s₀, l, hdescriptor, hs₀, hl⟩ : ∃ run s₀ l,
      (hostBinding config).descriptor source mode s = .done run s₀ ∧
      s₀.context? .own = some ⟨s.own.registry, l⟩ ∧ l.ready = s.own.lifecycle.ready :=
    ⟨_, _, _, rfl, rfl, rfl⟩
  -- what comes before the body is one computation
  unfold transcribedDrive at h
  rw [Task.run_lift_bind hdescriptor, Stage.around_eq, ← bind_assoc] at h
  obtain ⟨first, ⟨ok, es₁⟩, s₁, rest, hlog, hfirst, h⟩ := Step.course_bind.1 h
  obtain ⟨new, ready, calls, rfl, hbody, rfl, hs₁, hevents, hready, hcalls⟩ :=
    before_events hr hs₀ hfirst
  obtain ⟨asked, ⟨outcome, es₂⟩, s₂, rest, rfl, hasked, h⟩ := Step.course_bind.1 h
  obtain ⟨o', rfl, rfl, rfl, hother⟩ := call_events hasked
  obtain ⟨hregistry, hgate⟩ := Prod.mk.inj (hbetween _ _ hother)
  have hown : s₁.own = ⟨s.own.registry, Behaviour.during l run .executing⟩ := Option.some.inj hs₁
  have hs₂ : s₂.context? .own = some ⟨s.own.registry, s₂.own.lifecycle⟩ := by
    rw [hown] at hregistry
    rw [← hregistry]
    rfl
  obtain ⟨new', after, rfl, hbody', rfl, hs', hevents', hafter⟩ := after_events hr hs₂ h
  -- there is no other exchange than the call
  have hlength := congrArg List.length hlog
  simp only [List.length_append, List.length_cons, List.length_nil] at hlength
  obtain rfl : first = [] := List.eq_nil_of_length_eq_zero (by omega)
  obtain rfl : rest = [] := List.eq_nil_of_length_eq_zero (by omega)
  obtain rfl : o = o' := eq_of_heq (Sigma.mk.inj (List.head_eq_of_cons_eq hlog)).2
  refine ⟨ready, calls, after, hl ▸ hready, hcalls, hafter, rfl, ?_, fun worker => ?_⟩
  · rw [show s'.own.lifecycle = s₂.own.lifecycle.leave run from
      congrArg ContextState.lifecycle (Option.some.inj hs')]
    exact hgate.trans (congrArg (·.lifecycle.ready) hown)
  · simp only [combinedTrace_append, combinedTrace_of_forall hbody, combinedTrace_of_forall hbody',
      hevents, hevents']
    simp [combinedTrace]

/-! ## The worker's part -/

namespace WorkerContext
variable {w : WorkerContext} {calls : List HostExchange} {answer : Except RemoteError Value}
  {es : List (StageExchange Callback)}

section
variable (hbetween : ∀ s s', between s s' →
  s'.context? (.worker channel) = s.context? (.worker channel))
include hbetween

lemma replaying_run {r : Registry Callback} (hr : r.Passive) (config : Value) (mode : RunMode)
    (run : RunDescriptor) (code : String) : (replaying between (.worker channel) r).rel
      ((binding channel config).stage.transcribed.run mode run code)
      ((Behaviour.replay Callback.name true).stage.run mode run code) := by
  rw [Stage.run_eq, Stage.run_eq]
  exact ((steady hbetween config).parts hr).around
    (Stage.rel_executeUser ((steady hbetween config).replaying_execute code))

omit hbetween in
/-- An idle worker is taken, and gives the run its descriptor. -/
lemma transcribedSource_eq (mode : RunMode) (code : String) (hw : s.workers[channel]? = some w)
    (hidle : w.busy = false) :
    ∃ s₁, s₁.context? (.worker channel) =
        some ⟨w.context.registry, (w.context.lifecycle.descriptor w.name mode).2⟩ ∧
      (transcribedSource channel mode code).run [] s =
        ((binding channel w.config).stage.transcribed.run mode
            (w.context.lifecycle.descriptor w.name mode).1 code >>= fun outcome => do
          liftM (setBusy channel false)
          return outcome.mapError RunError.toRemote).run [] s₁ := by
  let sb := s.updateWorker channel fun w => { w with busy := true }
  have hsb : sb.context? (.worker channel) = some w.context := by
    rw [s.context?_updateWorker channel (f := fun w => { w with busy := true }) fun _ => rfl]
    simp [EnvironmentState.context?, hw]
  have hdescriptor : (binding channel w.config).descriptor w.name mode sb =
      .done (w.context.lifecycle.descriptor w.name mode).1
        (sb.updateContext (fun c =>
          { c with lifecycle := (w.context.lifecycle.descriptor w.name mode).2 })
          (.worker channel)) := by
    rw [← EnvironmentState.context_eq hsb]
    rfl
  refine ⟨_, EnvironmentState.context?_updateContext hsb fun c =>
    { c with lifecycle := (w.context.lifecycle.descriptor w.name mode).2 }, ?_⟩
  have hget : (get : WorkerTask EnvironmentState EnvironmentState) s = .done s s := rfl
  have hset : setBusy channel true s = .done () sb := rfl
  unfold transcribedSource
  rw [Task.run_lift_bind hget]
  dsimp only
  rw [worker_eq hw, if_neg (by simp [hidle]), Task.run_lift_bind hset,
    Task.run_lift_bind hdescriptor]

/-- The worker's events are the trace of a run with its registry, in which all ends as it did. -/
lemma source_events (hr : w.context.registry.Passive) (hw : s.workers[channel]? = some w)
    (hidle : w.busy = false)
    (h : ((transcribedSource channel mode code).run [] s).Course between calls (answer, es) s') :
    ∃ outcome, answer = outcome.mapError RunError.toRemote ∧
      (Behaviour.replay Callback.name true).RunTrace mode
        (w.context.lifecycle.descriptor w.name mode).1 code
        (w.context.lifecycle.descriptor w.name mode).2
        (w.context.registry, RunEvent.endings es) (RunEvent.ofTranscript es) outcome
        (w.context.registry, []) := by
  obtain ⟨s₁, hs₁, heq⟩ := transcribedSource_eq mode code hw hidle
  rw [heq] at h
  obtain ⟨_, ⟨outcome, es'⟩, s₂, _, rfl, hrun, hrest⟩ := Step.course_bind.1 h
  obtain ⟨rfl, hanswer, rfl⟩ := Step.course_done.1 hrest
  obtain ⟨rfl, rfl⟩ := Prod.mk.inj hanswer
  obtain ⟨new, l', hnew, -, -, hy⟩ :=
    replaying_run hbetween hr w.config mode _ code _ _ _ _ _ _ _ hs₁ hrun
  obtain rfl : es = new := hnew
  -- its trace is the one that it has in the replay
  obtain ⟨events, result, x, htrace⟩ := (Behaviour.replay Callback.name true).exists_runTrace mode
    (w.context.lifecycle.descriptor w.name mode).1 code
    (w.context.lifecycle.descriptor w.name mode).2 (w.context.registry, RunEvent.endings es ++ [])
  obtain ⟨rfl, heq⟩ := Prod.mk.inj ((hy [] []).symm.trans (htrace.run_eq []))
  obtain ⟨-, rfl, rfl⟩ := Recorded.mk.inj heq
  rw [List.append_nil] at htrace
  exact ⟨outcome, rfl, htrace⟩

end
end WorkerContext

/-! ## Both parts -/

/-- Others do not touch the registries of the host and of the worker while the worker is in a
run. -/
def Elsewhere (channel : ℕ) (s s' : EnvironmentState) : Prop :=
  s'.own.gated = s.own.gated ∧ s'.context? (.worker channel) = s.context? (.worker channel)

/-- The way of a call for a run through an open channel. The host calls in the state `s` and goes on
in `s'`. In between the worker, which is idle, serves the call from `t` to `t'`, and its answer
arrives at the heap `h`. -/
structure Passage (channel : ℕ) (mode : RunMode) (code : String) (s t t' s' : EnvironmentState)
    (calls : List HostExchange) (answer : Except RemoteError Value) (h : Heap) (o : CallOutcome) :
    Prop where
  called : t.own.gated = s.own.gated
  idle : (t.worker channel).busy = false
  served : ∃ id wire args h₁,
    (WorkerContext.serve channel mode args t).Course (Elsewhere channel) calls answer t' ∧
    Story (K := RunMode ⊕ Function) "worker" id (.aside o)
      [.issued (.method mode.method) [.str code] s.heap,
      .served (.method mode.method) wire h₁ (some (.inl mode)), .ran (.inl mode) args t.heap,
      .answered answer t'.heap, .received h o]
  returned : s'.own.gated = t'.own.gated

/-- The trace of a run across the contexts of the host and of a worker, and the outcome of the
worker's part. -/
inductive AcrossTrace (host : ContextState) (channel : ℕ) (w : WorkerContext) (mode : RunMode)
    (code : String) : List (ContextId × RunEvent Callback) → Except RunError Value → Prop
  | intro {ready before worker after : List (RunEvent Callback)} {outcome : Except RunError Value}
      (hready : if host.lifecycle.ready then ready = []
        else RunEvent.InTurn Callback.name .onReady (host.registry.callbacksOf .onReady) ready)
      (hbefore : RunEvent.InTurn Callback.name mode.phases.before
        (host.registry.callbacksOf mode.phases.before) before)
      (hworker : (Behaviour.replay Callback.name true).RunTrace mode
        (w.context.lifecycle.descriptor w.name mode).1 code
        (w.context.lifecycle.descriptor w.name mode).2
        (w.context.registry, worker.filter RunEvent.ends) worker outcome (w.context.registry, []))
      (hafter : RunEvent.InTurn Callback.name mode.phases.after
        (host.registry.callbacksOf mode.phases.after) after) :
      AcrossTrace host channel w mode code ((ready ++ before).map (.own, ·) ++
        worker.map (.worker channel, ·) ++ after.map (.own, ·)) outcome

/-- The outcome of a worker's run as it arrives at the host. -/
inductive Arrives (h h' : Heap) : Except RunError Value → Except RunError Value → Prop
  | value {v v' : Value} {wire : Wire} {h'' : Heap} (hencode : Wire.encode h v = .ok wire)
      (hdecode : Wire.decode h' wire = .ok (v', h'')) : Arrives h h' (.ok v) (.ok v')
  | execution (e : InterpreterError) :
      Arrives h h' (.error (.execution e)) (.error (.remote ⟨e.kind, e.message⟩))
  | hookCode (phase : Phase) (e : InterpreterError) : Arrives h h' (.error (.hookCode phase e))
      (.error (.remote ⟨"ConfigError", phase.text ++ " hook code failed: " ++ e.text⟩))

/-- What a worker has answered the host does not show again. -/
lemma Arrives.ownReport_eq {h h' : Heap} {outcome result : Except RunError Value}
    (harrives : Arrives h h' outcome result) : ownReport result = [] := by
  cases harrives <;> rfl

section
variable {t t' s₁ s₂ : EnvironmentState} {calls : List HostExchange}
  {answer : Except RemoteError Value} {h : Heap} {o : CallOutcome} {w : WorkerContext}

lemma Passage.gated_eq (p : Passage channel mode code s t t' s' calls answer h o) :
    s'.own.gated = s.own.gated := by
  obtain ⟨_, _, args, _, hserve, -⟩ := p.served
  have hkept : t'.own.gated = t.own.gated :=
    WorkerContext.keeps_serve_own (fun _ _ (h : Elsewhere channel _ _) => h.1) mode args
      t calls answer t' hserve
  rw [p.returned, hkept, p.called]

/-- The worker runs the code that the host has sent, and the host gets its answer. -/
lemma Passage.runSource (p : Passage channel mode code s t t' s' calls answer h o) :
    (WorkerContext.runSource channel mode code t).Course (Elsewhere channel) calls answer t' ∧
      Transported t'.heap h answer o := by
  obtain ⟨_, _, args, _, hserve, story⟩ := p.served
  obtain ⟨rfl, htransported⟩ := story.text_arrives
  exact ⟨hserve, htransported⟩

/-- What the host makes of the outcome of the worker's run. -/
lemma arrives_of_transported {outcome : Except RunError Value}
    (houtcome : ∀ e, outcome = .error e →
      (∃ e', e = .execution e') ∨ ∃ phase e', e = .hookCode phase e')
    (hencode : ∀ v, outcome = .ok v → ∃ wire, Wire.encode t'.heap v = .ok wire)
    (htransported : Transported t'.heap h (outcome.mapError RunError.toRemote) o) :
    Arrives t'.heap h outcome (o.mapError RunError.ofChannel) := by
  cases outcome with
  | ok v =>
    cases htransported with
    | delivered hwire hdecode => exact .value hwire hdecode
    | unencodable hfails =>
      obtain ⟨_, hwire⟩ := hencode v rfl
      cases hfails.symm.trans hwire
  | error e =>
    cases htransported
    obtain ⟨e, rfl⟩ | ⟨phase, e, rfl⟩ := houtcome e rfl
    · exact .execution e
    · exact .hookCode phase e

/-- No code is executed on the host. -/
lemma AcrossTrace.not_executed {host : ContextState} {trace : List (ContextId × RunEvent Callback)}
    {outcome : Except RunError Value} (htrace : AcrossTrace host channel w mode code trace outcome)
    (text : String) (r : Except InterpreterError Value) :
    (ContextId.own, RunEvent.executed text r) ∉ trace := by
  cases htrace with
  | @intro ready before worker after _ hready hbefore _ hafter =>
    have hready : .executed text r ∉ ready := by
      split at hready
      · rw [hready]
        exact List.not_mem_nil
      · exact hready.not_executed text r
    simp [hready, hbefore.not_executed text r, hafter.not_executed text r]

/-- A transcript of what a worker does with source text. -/
def WorkerContext.Transcribes (channel : ℕ) (mode : RunMode) (code : String)
    (t t' : EnvironmentState) (calls : List HostExchange) (answer : Except RemoteError Value)
    (es : List (StageExchange Callback)) : Prop :=
  ((transcribedSource channel mode code).run [] t).Course (Elsewhere channel) calls (answer, es) t'

/-- A run that the host drives makes one call. If the call gets through to a worker and its answer
back, the run ends. Its trace is that of both contexts: the callbacks of the host for `onReady`,
unless the gate has been open, and those before the run, then a whole run in the worker, then the
callbacks of the host after the run. What the worker's run comes to arrives as the result. -/
theorem drive_across (channel : ℕ) (config : Value) (source code : String) (mode : RunMode)
    (hhost : s.own.registry.Passive) : ∃ s₁ resume,
    drive channel config source code mode s =
      .ask (.call channel (.method mode.method) [.str code]) s₁ resume ∧
    ∀ t t' s₂ calls answer h o w, Passage channel mode code s₁ t t' s₂ calls answer h o →
      t.workers[channel]? = some w → w.context.registry.Passive →
      (∀ v, answer = .ok v → ∃ wire, Wire.encode t'.heap v = .ok wire) →
      ∃ result s' host,
        resume o s₂ = .done result s' ∧ s'.own.lifecycle.ready = true ∧
        ((transcribedDrive channel config source code mode).run [] s).Course
          (fun a b => a = s₁ ∧ b = s₂) [⟨.call channel (.method mode.method) [.str code], o⟩]
          (result, host) s' ∧
        (∃ worker, WorkerContext.Transcribes channel mode code t t' calls answer worker) ∧
        ∀ worker, WorkerContext.Transcribes channel mode code t t' calls answer worker →
          ∃ trace outcome, trace = combinedTrace channel (RunEvent.ofTranscript worker) host ∧
            AcrossTrace s.own channel w mode code trace outcome ∧
            (∀ text r, (ContextId.own, RunEvent.executed text r) ∉ trace) ∧
            Arrives t'.heap h outcome result := by
  obtain ⟨s₁, resume, hask, hafter⟩ := drive_eq channel config source code mode s
  refine ⟨s₁, resume, hask, ?_⟩
  intro t t' s₂ calls answer h o w p hw hworker hencode
  obtain ⟨s', hdone, -⟩ := hafter o s₂
  obtain ⟨hsource, htransported⟩ := p.runSource
  -- the host's part
  have hdrive : (drive channel config source code mode s).Course (fun a b => a = s₁ ∧ b = s₂)
      [⟨.call channel (.method mode.method) [.str code], o⟩]
      (o.mapError RunError.ofChannel) s' := by
    rw [hask]
    exact Step.course_ask.2 ⟨o, s₂, [], rfl, ⟨rfl, rfl⟩, hdone ▸ .done _ _⟩
  obtain ⟨host, hhostcourse⟩ :=
    Stage.exists_transcript (transcripts_drive channel config source code mode) hdrive
  have hkept : ∀ a b, (a = s₁ ∧ b = s₂) → b.own.gated = a.own.gated := by
    rintro _ _ ⟨rfl, rfl⟩
    exact p.gated_eq
  obtain ⟨ready, before, after, hready, hbefore, hafter, -, hgate, hcombined⟩ :=
    drive_events hhost hkept hhostcourse
  refine ⟨_, s', host, hdone, hgate, hhostcourse,
    Stage.exists_transcript (WorkerContext.transcripts_source channel mode code) hsource, ?_⟩
  -- the worker's part, whatever transcript it has
  intro worker hworkercourse
  have hidle : w.busy = false := WorkerContext.worker_eq hw ▸ p.idle
  obtain ⟨outcome, rfl, htrace⟩ :=
    WorkerContext.source_events (fun _ _ h => h.2) hworker hw hidle hworkercourse
  have harrives := arrives_of_transported (fun e he => (he ▸ htrace).eq_of_error)
    (fun v hv => hencode v (by rw [hv]; rfl)) htransported
  have hacross : AcrossTrace s.own channel w mode code
      (combinedTrace channel (RunEvent.ofTranscript worker) host) outcome := by
    rw [hcombined, harrives.ownReport_eq]
    exact .intro hready hbefore htrace hafter
  exact ⟨_, outcome, rfl, hacross, hacross.not_executed, harrives⟩

end

/-- Logs its name. -/
def logging (id : ℕ) (name : String) : Callback :=
  ⟨id, name, [.log name], 0⟩

/-- Fails. -/
def failing : Callback :=
  ⟨3, "after", [.fail ["no"]], 0⟩

/-- An environment with callbacks in the host and in its worker. -/
def watched : EnvironmentState where
  __ := WorkerContext.oneWorker.updateContext (fun c => { c with registry := { c.registry with
    callbacks := ⟨[(.onBeforeRun, ⟨[logging 2 "inner"]⟩)]⟩ } }) (.worker 0)
  own :=
    let own := ContextState.new .host .default
    { own with registry := { own.registry with
        callbacks := ⟨[(.onReady, ⟨[logging 0 "greet"]⟩), (.onBeforeRun, ⟨[logging 1 "before"]⟩),
          (.onAfterRun, ⟨[failing]⟩)]⟩ } }

/-- What happens in both contexts when the host sends its worker `print hi`. -/
def printTrace : List (ContextId × RunEvent Callback) :=
  [(.own, .called .onReady (logging 0 "greet") .done),
    (.own, .called .onBeforeRun (logging 1 "before") .done),
    (.worker 0, .called .onBeforeRun (logging 2 "inner") .done),
    (.worker 0, .executed "print hi" (.ok .null)),
    (.own, .called .onAfterRun failing (.failed "no")),
    (.own, .notified "onAfterRun callback 'after' failed: no")]

lemma watched_passive : watched.own.registry.Passive := by
  intro phase c hc
  cases phase with
  | onReady =>
    obtain rfl := List.mem_singleton.1 hc
    simp [logging, Callback.Passive, Action.Passive]
  | onBeforeRun =>
    obtain rfl := List.mem_singleton.1 hc
    simp [logging, Callback.Passive, Action.Passive]
  | onAfterRun =>
    obtain rfl := List.mem_singleton.1 hc
    simp [failing, Callback.Passive, Action.Passive]
  | _ => cases hc

lemma watched_worker_passive : (watched.worker 0).context.registry.Passive := by
  intro phase c hc
  cases phase with
  | onBeforeRun =>
    obtain rfl := List.mem_singleton.1 hc
    simp [logging, Callback.Passive, Action.Passive]
  | _ => cases hc

/-- A state with the arguments of a call as its next object. -/
def EnvironmentState.withText (s : EnvironmentState) (code : String) : EnvironmentState :=
  { s with heap := (s.heap.newList [.str code]).2 }

lemma encode_null (h : Heap) : Wire.encode h .null = .ok .null := by
  unfold Wire.encode
  simp [ObjectTable.ofValue, ObjectTable.empty, ObjectTable.slot]
  rfl

/-- Only null arrives as null. -/
lemma eq_null_of_arrives {h h' : Heap} {outcome : Except RunError Value}
    (harrives : Arrives h h' outcome (.ok .null)) : outcome = .ok .null := by
  cases harrives with
  | @value v _ wire h'' hencode hdecode =>
    have hv : h.FunctionFree v := Wire.functionFree_of_encode hencode
    rw [Wire.decode_eq (Wire.closed_of_encode hv hencode)] at hdecode
    rw [Wire.encode_eq hv] at hencode
    cases hencode
    have hroot := congrArg Prod.fst (Except.ok.inj hdecode)
    cases v with
    | null => rfl
    | function f => exact (hv f .refl).elim
    | _ => cases hroot

/-- The host calls the worker, the worker prints, and the host ends its run. -/
lemma drive_watched : ∃ s₁ resume t' worker,
    drive 0 .null "worker-1" "print hi" .sync watched =
      .ask (.call 0 (.method Method.run) [.str "print hi"]) s₁ resume ∧
    (s₁.withText "print hi").workers[0]? = some (watched.worker 0) ∧
    (WorkerContext.serve 0 .sync [.str "print hi"] (s₁.withText "print hi")).Course (Elsewhere 0)
      [⟨⟨.method Method.write, [.str "stdout", .str "hi\n"]⟩, .ok .null⟩] (.ok .null) t' ∧
    WorkerContext.Transcribes 0 .sync "print hi" (s₁.withText "print hi") t'
      [⟨⟨.method Method.write, [.str "stdout", .str "hi\n"]⟩, .ok .null⟩] (.ok .null) worker ∧
    ∀ result host s', ((transcribedDrive 0 .null "worker-1" "print hi" .sync).run [] watched).Course
        (fun a b => a = s₁ ∧ b = t') [⟨.call 0 (.method Method.run) [.str "print hi"], .ok .null⟩]
        (result, host) s' →
      result = .ok .null ∧ combinedTrace 0 (RunEvent.ofTranscript worker) host = printTrace := by
  refine ⟨_, _, _, _, rfl, rfl, .ask _ ⟨rfl, rfl⟩ (.done _ _), .ask _ ⟨rfl, rfl⟩ (.done _ _), ?_⟩
  intro result host s' h
  obtain ⟨_, _, _, hlog, ⟨-, rfl⟩, hrest⟩ := Step.course_ask.1 h
  obtain ⟨⟨⟩, rfl⟩ := List.cons.inj hlog
  obtain ⟨-, ⟨⟩, -⟩ := Step.course_done.1 hrest
  exact ⟨rfl, rfl⟩

/-- The run goes through both contexts in turn, and the host gets null. -/
theorem drive_across_print : ∃ s₁ resume s₂ s',
    drive 0 .null "worker-1" "print hi" .sync watched =
      .ask (.call 0 (.method Method.run) [.str "print hi"]) s₁ resume ∧
    resume (.ok .null) s₂ = .done (.ok .null) s' ∧ s'.own.lifecycle.ready = true ∧
    AcrossTrace watched.own 0 (watched.worker 0) .sync "print hi" printTrace (.ok .null) ∧
    Arrives s₂.heap s₂.heap (.ok .null) (.ok .null) := by
  obtain ⟨s₁, _, t', worker, hdrive, hw, hserve, hworker, hhosts⟩ := drive_watched
  obtain ⟨_, resume, hask, hall⟩ :=
    drive_across 0 .null "worker-1" "print hi" .sync watched_passive
  obtain ⟨-, rfl, -⟩ := Step.ask.inj (hdrive.symm.trans hask)
  have hidle : ((s₁.withText "print hi").worker 0).busy = false := by
    rw [WorkerContext.worker_eq hw]
    rfl
  have hanswer :
      (answerTo t'.heap ⟨0⟩ (.ok .null)).outcome? t'.heap = some (.ok .null, t'.heap) := by
    rw [answerTo, encode_null]
    rfl
  have p : Passage 0 .sync "print hi" s₁ (s₁.withText "print hi") t' t' _ (.ok .null) t'.heap
      (.ok .null) := ⟨rfl, hidle, ⟨⟨0⟩, _, _, _, hserve, .of_text hanswer⟩, rfl⟩
  obtain ⟨result, s', host, hdone, hready, hhost, -, htraces⟩ :=
    hall _ _ _ _ _ _ _ _ p hw watched_worker_passive
      fun v hv => ⟨_, Except.ok.inj hv ▸ encode_null _⟩
  obtain ⟨trace, outcome, rfl, htrace, -, harrives⟩ := htraces worker hworker
  obtain ⟨rfl, hcombined⟩ := hhosts _ _ _ hhost
  obtain rfl := eq_null_of_arrives harrives
  exact ⟨s₁, resume, t', s', hask, hdone, hready, hcombined ▸ htrace, harrives⟩

end WorkerHost
