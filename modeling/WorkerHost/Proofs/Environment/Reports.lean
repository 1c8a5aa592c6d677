import WorkerHost.Environment.Host
import WorkerHost.Proofs.Environment.Delivery
import WorkerHost.Proofs.Lifecycle.Local
import WorkerHost.Proofs.Lifecycle.Notices
import WorkerHost.Proofs.Outcome
import WorkerHost.Proofs.Value.Display

/-!
# Reports of failed runs

Two contexts take part in a run that the host drives in a worker, and both show things to the user:
the worker by calls of `notify`, each of which adds one note (`HostEndpoint.notify_shown`), the host
by adding notes itself. The host does not show a failure that the worker answers, as the worker is
supposed to have done so.

`drive_reports` says what comes of that. A failure of the channel is shown once, by the host. A
failure of code is shown once, by the worker. A run that the worker refuses because another one is
in progress is not shown at all, `not_every_failure_reported`, and neither is a value that does not
get through to the host.
-/

namespace WorkerHost

open LocalContext (noteOf)

variable {channel : ℕ} {config : Value} {source code : String} {mode : RunMode}
  {s s' : EnvironmentState} {between : EnvironmentState → EnvironmentState → Prop}

/-! ## The worker's part -/

namespace WorkerContext

/-- The calls that a worker makes of its host while events happen. A text is shown by one call of
`notify`, made then. Callbacks and code make the calls that they like. -/
inductive Told : List (RunEvent Callback) → List HostExchange → Prop
  | nil : Told [] []
  | notified {text : String} {r : CallOutcome} {es : List (RunEvent Callback)}
      {log : List HostExchange} (h : Told es log) :
      Told (.notified text :: es) (⟨⟨.method Method.notify, [.str text]⟩, r⟩ :: log)
  | called {phase : Phase} {c : Callback} {outcome : CallbackOutcome}
      {es : List (RunEvent Callback)} {calls log : List HostExchange} (h : Told es log) :
      Told (.called phase c outcome :: es) (calls ++ log)
  | executed {code : String} {outcome : Except InterpreterError Value}
      {es : List (RunEvent Callback)} {calls log : List HostExchange} (h : Told es log) :
      Told (.executed code outcome :: es) (calls ++ log)

lemma Told.append {es es' : List (RunEvent Callback)} {log log' : List HostExchange}
    (h : Told es log) (h' : Told es' log') : Told (es ++ es') (log ++ log') := by
  induction h with
  | nil => exact h'
  | notified _ ih => exact .notified ih
  | called _ ih =>
    rw [List.append_assoc]
    exact .called ih
  | executed _ ih =>
    rw [List.append_assoc]
    exact .executed ih

/-- On every course of a computation it has events that it may have, and tells the host of them. -/
def telling (between : EnvironmentState → EnvironmentState → Prop) :
    MonadRel (WorkerTask EnvironmentState) (Eventful Callback) where
  rel x y := ∀ s log a s', (x s).Course between log a s' → ∃ es, Told es log ∧ y es a
  pure a s log b s' h := by
    obtain ⟨rfl, rfl, rfl⟩ := Step.course_done.1 h
    exact ⟨[], .nil, rfl, rfl⟩
  bind {_ _ x y f g} hx hf s log b s' h := by
    obtain ⟨first, a, s₁, rest, rfl, hfirst, hrest⟩ := Step.course_bind.1 h
    obtain ⟨es, htold, hes⟩ := hx _ _ _ _ hfirst
    obtain ⟨es', htold', hes'⟩ := hf a _ _ _ _ hrest
    exact ⟨es ++ es', htold.append htold', es, a, es', rfl, hes, hes'⟩

/-- A computation of one step has no events. -/
lemma telling_done {α : Type} {x : WorkerTask EnvironmentState α} {y : Eventful Callback α}
    (hx : ∀ s, ∃ a s', x s = .done a s') (hy : ∀ a, y [] a) : (telling between).rel x y := by
  intro s log b s' h
  obtain ⟨a, t, hdone⟩ := hx s
  rw [hdone] at h
  obtain ⟨rfl, rfl, rfl⟩ := Step.course_done.1 h
  exact ⟨[], .nil, hy b⟩

/-- The stage of a worker has the events that any stage may have, and tells its host of them. -/
theorem telling_stage (channel : ℕ) (config : Value) : (binding channel config).stage.Lockstep
    (telling between) (.anything Callback.name true) where
  get := telling_done (fun _ => ⟨_, _, rfl⟩) fun _ => rfl
  isReady := telling_done (fun _ => ⟨_, _, rfl⟩) fun _ => rfl
  modify _ := telling_done (fun _ => ⟨_, _, rfl⟩) fun _ => rfl
  callbacks _ := telling_done (fun _ => ⟨_, _, rfl⟩) fun _ => rfl
  code _ := telling_done (fun _ => ⟨_, _, rfl⟩) fun _ => rfl
  callbackName := rfl
  invoke phase run c := by
    intro s log outcome s' _
    -- whatever the callback has called belongs to its event
    refine ⟨[.called phase c outcome], ?_, rfl⟩
    rw [← List.append_nil log]
    exact .called .nil
  execute mode code := by
    intro s log outcome s' h
    obtain ⟨first, r, _, _, rfl, _, hpure⟩ := Step.course_bind.1 h
    obtain ⟨rfl, rfl, rfl⟩ := Step.course_done.1 hpure
    exact ⟨[.executed code r], .executed .nil, r, rfl, rfl⟩
  notify text := by
    intro s log u s' h
    cases h with
    | ask r _ hrest =>
      obtain ⟨rfl, -, -⟩ := Step.course_done.1 hrest
      exact ⟨[.notified text], .notified .nil, rfl⟩

/-- The calls that a worker makes in a run account for its answer. -/
structure Accounts (es : List (RunEvent Callback)) (failures : List RunError)
    (outcome : Except RunError Value) (calls : List HostExchange)
    (answer : Except RemoteError Value) : Prop where
  /-- the calls are those of these events -/
  told : Told es calls
  /-- which show these failures, once each -/
  noticed : Noticed Callback.name es failures
  once : failures.Nodup
  /-- the run fails with the first of them, if there is one -/
  first : ∀ e, outcome = .error e ↔ failures.head? = some e
  /-- and the worker answers so -/
  answer : answer = outcome.mapError RunError.toRemote

/-- The refusal of a worker in which a run is in progress. -/
def busyError : RemoteError := ⟨"RuntimeError", "interpreter is busy"⟩

lemma runSource_busy (hbusy : (s.worker channel).busy = true) :
    runSource channel mode code s = .done (.error busyError) s := by
  show (if (s.worker channel).busy then _ else _ : WorkerTask EnvironmentState _) s = _
  rw [if_pos hbusy]
  rfl

lemma accounts_of_runSource {calls : List HostExchange} {answer : Except RemoteError Value}
    (hidle : (s.worker channel).busy = false)
    (h : (runSource channel mode code s).Course between calls answer s') :
    ∃ es failures outcome, Accounts es failures outcome calls answer := by
  change Step.Course between
    ((if (s.worker channel).busy then _ else _ : WorkerTask EnvironmentState _) s) _ _ _ at h
  rw [if_neg (by simp [hidle])] at h
  -- the run comes between steps that call nothing
  obtain ⟨_, _, _, _, rfl, hset, h⟩ := Step.course_bind.1 h
  obtain ⟨rfl, -, rfl⟩ := Step.course_done.1 hset
  obtain ⟨_, run, _, _, rfl, hdescriptor, h⟩ := Step.course_bind.1 h
  obtain ⟨rfl, -, rfl⟩ := Step.course_done.1 hdescriptor
  obtain ⟨log, outcome, _, _, rfl, hrun, h⟩ := Step.course_bind.1 h
  obtain ⟨rfl, rfl, rfl⟩ := Step.course_done.1 h
  obtain ⟨es, htold, hes⟩ := (telling_stage channel _).wholeRun mode run code _ _ _ _ hrun
  obtain ⟨failures, hnoticed, hnodup, houtcome⟩ := Stage.noticed_run hes
  rw [List.nil_append, List.nil_append, List.append_nil]
  exact ⟨es, failures, outcome, ⟨htold, hnoticed, hnodup, houtcome, rfl⟩⟩

end WorkerContext

/-! ## The host's part -/

/-- A computation that asks nothing and shows nothing. -/
def silent : MonadRel (HostTask EnvironmentState) (HostTask EnvironmentState) where
  rel x _ := ∀ s, ∃ a s', x s = .done a s' ∧ s'.notes = s.notes
  pure a s := ⟨a, s, rfl, rfl⟩
  bind {_ _ x y f g} hx hf s := by
    obtain ⟨a, s₁, hx, hnotes⟩ := hx s
    obtain ⟨b, s₂, hf, hnotes'⟩ := hf a s₁
    exact ⟨b, s₂, (Task.bind_of_done hx f).trans hf, hnotes'.trans hnotes⟩

/-- A computation that asks nothing has the events that it may have, and shows what is notified. -/
def noting : MonadRel (HostTask EnvironmentState) (Eventful Callback) where
  rel x y := ∀ s, ∃ es a s', x s = .done a s' ∧ s'.notes = s.notes ++ es.filterMap noteOf ∧ y es a
  pure a s := ⟨[], a, s, rfl, (List.append_nil _).symm, rfl, rfl⟩
  bind {_ _ x y f g} hx hf s := by
    obtain ⟨es, a, s₁, hx, hnotes, hes⟩ := hx s
    obtain ⟨es', b, s₂, hf, hnotes', hes'⟩ := hf a s₁
    refine ⟨es ++ es', b, s₂, (Task.bind_of_done hx f).trans hf, ?_, es, a, es', rfl, hes, hes'⟩
    rw [hnotes', hnotes, List.append_assoc, List.filterMap_append]

lemma noting_done {α : Type} {x : HostTask EnvironmentState α} {y : Eventful Callback α}
    (h : ∀ s, ∃ a s', x s = .done a s' ∧ s'.notes = s.notes ∧ y [] a) : noting.rel x y := by
  intro s
  obtain ⟨a, s', hdone, hnotes, hy⟩ := h s
  exact ⟨[], a, s', hdone, hnotes.trans (List.append_nil _).symm, hy⟩

lemma silent_scope (config : Value) (role : Role) :
    ((hostBinding config).scope role).Lockstep silent ((hostBinding config).scope role) where
  role := rfl
  config := rfl
  hasWorker := rfl
  log _ := fun _ => ⟨_, _, rfl, rfl⟩
  display _ := fun _ => ⟨_, _, rfl, rfl⟩
  field? _ _ := fun _ => ⟨_, _, rfl, rfl⟩
  interpreter? := fun _ => ⟨_, _, rfl, rfl⟩
  execute _ := fun _ => ⟨_, _, rfl, rfl⟩
  stateText? _ := fun _ => ⟨_, _, rfl, rfl⟩
  change _ _ _ _ _ := fun _ => ⟨_, _, rfl, rfl⟩

/-- The stage of the host has the events that a stage without an interpreter may have. -/
theorem noting_stage (config : Value) :
    (hostBinding config).stage.Lockstep noting (.anything Callback.name false) where
  get := noting_done fun _ => ⟨_, _, rfl, rfl, rfl⟩
  isReady := noting_done fun _ => ⟨_, _, rfl, rfl, rfl⟩
  modify _ := noting_done fun _ => ⟨_, _, rfl, rfl, rfl⟩
  callbacks _ := noting_done fun _ => ⟨_, _, rfl, rfl, rfl⟩
  code _ := noting_done fun _ => ⟨_, _, rfl, rfl, rfl⟩
  callbackName := rfl
  invoke phase run c := by
    intro s
    obtain ⟨outcome, s', hdone, hnotes⟩ := (silent_scope config _).invoke phase s
    exact ⟨[.called phase c outcome], outcome, s', hdone, hnotes.trans (List.append_nil _).symm,
      rfl⟩
  execute _ _ := noting_done fun _ => ⟨_, _, rfl, rfl, rfl, rfl⟩
  notify text := fun s => ⟨[.notified text], (), s.note text, rfl, rfl, rfl⟩

/-- What the host itself shows of the result of a run: a failure that no worker has answered. -/
def ownReport : Except RunError Value → List String
  | .ok _ | .error (.remote _) => []
  | .error e => [e.message]

lemma filterMap_reportFailure {result : Except RunError Value} {es : List (RunEvent Callback)}
    {u : Unit} (h : (Stage.anything Callback.name false).reportFailure result es u) :
    es.filterMap noteOf = ownReport result := by
  cases result with
  | ok v =>
    obtain ⟨rfl, -⟩ := h
    rfl
  | error e =>
    cases e with
    | remote e =>
      obtain ⟨rfl, -⟩ := h
      rfl
    | hookCode _ _ | execution _ | transport _ =>
      obtain rfl : es = _ := h
      rfl

/-- What the host shows of a run that it drives: complaints about callbacks before its call and
after it, and before the latter its own report. -/
structure HostShows (s s₁ s₂ s' : EnvironmentState) (result : Except RunError Value) : Prop where
  before : ∃ es, Noticed Callback.name es [] ∧ s₁.notes = s.notes ++ es.filterMap noteOf
  after : ∃ es, Noticed Callback.name es [] ∧
    s'.notes = s₂.notes ++ ownReport result ++ es.filterMap noteOf

/-- Without an interpreter all that comes before the call succeeds, and only complains. -/
lemma drive_before (config : Value) (mode : RunMode) (run : RunDescriptor) (s : EnvironmentState) :
    ∃ es s₁, ((hostBinding config).stage.ensureReadyAsync run >>= fun _ =>
        (hostBinding config).stage.beforeRun mode run) s = .done (.ok ()) s₁ ∧
      Noticed Callback.name es [] ∧ s₁.notes = s.notes ++ es.filterMap noteOf := by
  have hstage := (noting_stage config).parts mode run
  obtain ⟨_, result, s₁, hdone, hnotes, ready, _, before, rfl, hready, hbefore⟩ :=
    noting.bind hstage.ensureReadyAsync (fun _ => hstage.beforeRun) s
  obtain ⟨hbefore, hbound⟩ := Stage.noticed_beforeRun hbefore
  -- code can fail in an interpreter only, and none is bound
  cases result with
  | error e => cases hbound e rfl
  | ok _ => exact ⟨_, s₁, hdone, (Stage.noticed_ensureReadyAsync hready).append hbefore, hnotes⟩

/-- All that comes after the call keeps its result. -/
lemma drive_after (config : Value) (mode : RunMode) (run : RunDescriptor)
    (result : Except RunError Value) (s : EnvironmentState) :
    ∃ es s', ((hostBinding config).stage.reportFailure result >>= fun _ =>
        (hostBinding config).stage.afterRun mode run result) s = .done result s' ∧
      Noticed Callback.name es [] ∧
      s'.notes = s.notes ++ ownReport result ++ es.filterMap noteOf := by
  have hstage := (noting_stage config).parts mode run
  obtain ⟨_, _, s', hdone, hnotes, report, _, after, rfl, hreport, hafter⟩ :=
    noting.bind (hstage.reportFailure _) (fun _ => hstage.afterRun _) s
  obtain ⟨phase, rfl, hafter, hbound⟩ := Stage.noticed_afterRun hafter
  -- nor can the code after the run fail, so there is nothing to settle
  cases phase with
  | error e => cases (hbound e rfl).1
  | ok _ =>
    have hsettle : Behaviour.settle result (.ok ()) = result := by cases result <;> rfl
    rw [hsettle] at hdone
    rw [List.filterMap_append, filterMap_reportFailure hreport, ← List.append_assoc] at hnotes
    exact ⟨after, s', hdone, hafter, hnotes⟩

/-- A run that the host drives makes one call, whose outcome is its own. -/
lemma drive_eq (channel : ℕ) (config : Value) (source code : String) (mode : RunMode)
    (s : EnvironmentState) : ∃ s₁ resume,
      drive channel config source code mode s =
        .ask (.call channel (.method mode.method) [.str code]) s₁ resume ∧
      ∀ (o : CallOutcome) s₂, ∃ s', resume o s₂ = .done (o.mapError RunError.ofChannel) s' ∧
        HostShows s s₁ s₂ s' (o.mapError RunError.ofChannel) := by
  obtain ⟨run, s₀, hdescriptor, hnotes⟩ : ∃ run s₀,
      (hostBinding config).descriptor source mode s = .done run s₀ ∧ s₀.notes = s.notes :=
    ⟨_, _, rfl, rfl⟩
  obtain ⟨before, s₁, hbefore, hcomplained, hshown⟩ := drive_before config mode run s₀
  refine ⟨s₁, fun o s₂ => ((hostBinding config).stage.reportFailure (o.mapError RunError.ofChannel)
    >>= fun _ => (hostBinding config).stage.afterRun mode run (o.mapError RunError.ofChannel)) s₂,
    ?_, fun o s₂ => ?_⟩
  · unfold drive
    -- what comes before the call is one computation, which ends
    rw [Task.bind_of_done hdescriptor, Stage.around_eq, ← bind_assoc, Task.bind_of_done hbefore]
    rfl
  · obtain ⟨after, s', hdone, hcomplained', hshown'⟩ := drive_after config mode run _ s₂
    exact ⟨s', hdone, ⟨before, hcomplained, hnotes ▸ hshown⟩, ⟨after, hcomplained', hshown'⟩⟩

/-! ## The notes of the host -/

namespace Handlers
variable {H : Type} {hs hs' : Handlers H} {method method' : String} {handler handler' : H}

/-- A handler stays when others are added. -/
lemma get?_register (h : hs.register method handler = .ok hs')
    (hget : hs.get? method' = some handler') : hs'.get? method' = some handler' := by
  unfold register at h
  split at h
  · cases h
  · obtain rfl := Except.ok.inj h
    obtain ⟨e, hfind, rfl⟩ := Option.map_eq_some_iff.1 hget
    simp only [get?, List.find?_append, hfind, Option.some_or, Option.map_some]

lemma get?_register_self (h : hs.register method handler = .ok hs') :
    hs'.get? method = some handler := by
  unfold register at h
  split at h
  · cases h
  · rename_i hnew
    obtain rfl := Except.ok.inj h
    have hnone : hs.get? method = none := by
      simpa only [contains, Bool.not_eq_true, Option.isSome_eq_false_iff,
        Option.isNone_iff_eq_none] using hnew
    simp [get?, List.find?_append, Option.map_eq_none_iff.1 hnone]

/-- What is there afterwards was there before or has been added. -/
lemma of_get?_register (h : hs.register method handler = .ok hs')
    (hget : hs'.get? method' = some handler') :
    hs.get? method' = some handler' ∨ handler' = handler := by
  unfold register at h
  split at h
  · cases h
  · obtain rfl := Except.ok.inj h
    obtain ⟨e, hfind, rfl⟩ := Option.map_eq_some_iff.1 hget
    rcases Option.or_eq_some_iff.1 ((List.find?_append).symm.trans hfind) with hold | ⟨-, hnew⟩
    · exact .inl (Option.map_eq_some_iff.2 ⟨e, hold, rfl⟩)
    · rw [List.mem_singleton.1 (List.mem_of_find?_eq_some hnew)]
      exact .inr rfl

end Handlers

namespace HostEndpoint
variable {name : String} {hasStore : Bool} {methods : List (String × HostMethod)}
  {e e' : HostEndpoint HostMethod} {method : String} {m : HostMethod}

lemma handlers_register (h : e.register method m = .ok e') :
    e.handlers.register method m = .ok e'.handlers ∧ e' = { e with handlers := e'.handlers } := by
  obtain ⟨hs, hregister, hadded⟩ := bind_eq_ok.1 h
  obtain rfl := Except.ok.inj hadded
  exact ⟨hregister, rfl⟩

lemma get?_registerAll (h : e.registerAll methods = (.ok (), e'))
    (hget : e.handlers.get? method = some m) : e'.handlers.get? method = some m := by
  induction methods generalizing e with
  | nil =>
    cases h
    exact hget
  | cons entry rest ih =>
    rw [registerAll] at h
    split at h
    · next e₁ hregister =>
      exact ih h (Handlers.get?_register (handlers_register hregister).1 hget)
    · cases h

/-- Each of the methods that were added is served as it was added. -/
lemma get?_of_mem (h : e.registerAll methods = (.ok (), e')) (hmem : (method, m) ∈ methods) :
    e'.handlers.get? method = some m := by
  induction methods generalizing e with
  | nil => cases hmem
  | cons entry rest ih =>
    rw [registerAll] at h
    split at h
    · next e₁ hregister =>
      -- it is added now and stays, or it is added later
      cases hmem with
      | head =>
        exact get?_registerAll h (Handlers.get?_register_self (handlers_register hregister).1)
      | tail _ hmem => exact ih h hmem
    · cases h

/-- A terminal takes over reads and writes only. -/
lemma get?_bindTerminal (session : ℕ) (hread : method ≠ Method.read)
    (hwrite : method ≠ Method.write) :
    (e.bindTerminal session).handlers.get? method = e.handlers.get? method := by
  have hothers : (fun h : String × HostMethod => decide ((h.1 != Method.read &&
      h.1 != Method.write) = true ∧ (h.1 == method) = true)) = (·.1 == method) := by
    funext h
    by_cases hmethod : h.1 = method
    · simp [hmethod, hread, hwrite]
    · simp [hmethod]
  have hnone : [(Method.read, HostMethod.terminalRead session),
      (Method.write, HostMethod.terminalWrite session)].find? (·.1 == method) = none := by
    simp [Ne.symm hread, Ne.symm hwrite]
  simp only [bindTerminal, Handlers.get?, List.find?_append, List.find?_filter, hothers, hnone,
    Option.or_none]

/-- Whatever methods a worker is given, a text that it has shown is shown once. -/
theorem notify_shown
    (h : (new name).registerAll (HostMethod.forWorker hasStore methods) = (.ok (), e)) :
    e.handlers.get? Method.notify = some .notify ∧
    (∀ session, (e.bindTerminal session).handlers.get? Method.notify = some .notify) ∧
    ∀ channel text s,
      HostMethod.notify.serve channel [.str text] s = .done (.ok .null) (s.note text) := by
  have hnotify : e.handlers.get? Method.notify = some .notify :=
    get?_of_mem h (by simp [HostMethod.forWorker, HostMethod.standard])
  refine ⟨hnotify, fun session => ?_, fun channel text s => ?_⟩
  · rw [get?_bindTerminal session (by decide) (by decide), hnotify]
  · have htext : HostMethod.textAt [.str text] 0 s = text := s.heap.display_str text
    show Step.done _ (s.note (HostMethod.textAt [.str text] 0 s)) = _
    rw [htext]

end HostEndpoint

/-! ## Both parts -/

/-- A run that the host drives, and any run that serves it in a worker. The host shows a failure of
the channel, and none that a worker answers. If the worker takes the run up, its calls account for
its answer. If a run is in progress there, it makes none. -/
theorem drive_reports {log : List ((q : HostAsk) × q.Answer)} {result : Except RunError Value}
    (h : (drive channel config source code mode s).Course between log result s') :
    ∃ (o : CallOutcome) (s₁ s₂ : EnvironmentState),
      log = [⟨.call channel (.method mode.method) [.str code], o⟩] ∧ between s₁ s₂ ∧
      result = o.mapError RunError.ofChannel ∧ HostShows s s₁ s₂ s' result ∧
      ∀ between' t calls answer t',
        (WorkerContext.serve channel mode [.str code] t).Course between' calls answer t' →
        (o = answer.mapError .remote → ownReport result = []) ∧
        if (t.worker channel).busy then calls = [] ∧ answer = .error WorkerContext.busyError
        else ∃ es failures outcome, WorkerContext.Accounts es failures outcome calls answer := by
  obtain ⟨s₁, resume, hask, hafter⟩ := drive_eq channel config source code mode s
  rw [hask] at h
  obtain ⟨o, s₂, _, rfl, hbetween, h⟩ := Step.course_ask.1 h
  obtain ⟨s₃, hdone, hshows⟩ := hafter o s₂
  rw [hdone] at h
  obtain ⟨rfl, rfl, rfl⟩ := Step.course_done.1 h
  refine ⟨o, s₁, s₂, rfl, hbetween, rfl, hshows, fun between' t calls answer t' hserve => ⟨?_, ?_⟩⟩
  · rintro rfl
    cases answer <;> rfl
  · change Step.Course between' (WorkerContext.runSource channel mode code t) _ _ _ at hserve
    split
    · rename_i hbusy
      rw [WorkerContext.runSource_busy hbusy] at hserve
      obtain ⟨rfl, rfl, rfl⟩ := Step.course_done.1 hserve
      exact ⟨rfl, rfl⟩
    · rename_i hidle
      exact WorkerContext.accounts_of_runSource (by simpa using hidle) hserve

/-- Code that fails in a worker: one call shows that, and the host adds nothing. -/
theorem drive_reports_fail : ∃ s₁ s₂ s' es failures outcome,
    HostShows WorkerContext.oneWorker s₁ s₂ s' (.error (.remote ⟨"E", "x"⟩)) ∧
    WorkerContext.Accounts es failures outcome
      [⟨⟨.method Method.notify, [.str "E: x"]⟩, .ok .null⟩] (.error ⟨"E", "x"⟩) := by
  obtain ⟨s', hdrive⟩ : ∃ s',
      (drive 0 .null "worker-1" "fail E x" .sync WorkerContext.oneWorker).Course (· = ·)
        [⟨.call 0 (.method Method.run) [.str "fail E x"], .error (.remote ⟨"E", "x"⟩)⟩]
        (.error (.remote ⟨"E", "x"⟩)) s' := ⟨_, .ask _ rfl (.done _ _)⟩
  obtain ⟨t', hserve⟩ : ∃ t',
      (WorkerContext.serve 0 .sync [.str "fail E x"] WorkerContext.oneWorker).Course (· = ·)
        [⟨⟨.method Method.notify, [.str "E: x"]⟩, .ok .null⟩] (.error ⟨"E", "x"⟩) t' :=
    ⟨_, .ask _ rfl (.done _ _)⟩
  obtain ⟨o, s₁, s₂, -, -, -, hshows, hworker⟩ := drive_reports hdrive
  obtain ⟨-, es, failures, outcome, haccounts⟩ := hworker _ _ _ _ _ hserve
  exact ⟨s₁, s₂, s', es, failures, outcome, hshows, haccounts⟩

/-- An environment in whose worker a run is in progress. -/
def busyWorker : EnvironmentState :=
  WorkerContext.oneWorker.updateWorker 0 fun w => { w with busy := true }

/-- A run is refused, so it fails, but neither the worker nor the host shows anything. -/
theorem not_every_failure_reported : ∃ s',
    (WorkerContext.serve 0 .sync [.str "print hi"] busyWorker).Course (· = ·) []
      (.error WorkerContext.busyError) busyWorker ∧
    (drive 0 .null "worker-1" "print hi" .sync busyWorker).Course (· = ·)
      [⟨.call 0 (.method Method.run) [.str "print hi"], .error (.remote WorkerContext.busyError)⟩]
      (.error (.remote WorkerContext.busyError)) s' ∧
    s'.notes = busyWorker.notes :=
  ⟨_, .done _ _, .ask _ rfl (.done _ _), rfl⟩

end WorkerHost
