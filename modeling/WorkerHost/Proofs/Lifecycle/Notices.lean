import WorkerHost.Proofs.Lifecycle.Lockstep
import WorkerHost.Proofs.Lifecycle.Trace

/-!
# What runs show to the user

`Stage.anything` is a stage in which callbacks and the interpreter may do what they like, and the
registry and the lifecycle may change at any moment. It says of a computation only which events it
can have, and with which result. A stage of any context is in lockstep with it, however little is
known of the context, so what its runs show is what any run shows.

* `Noticed`: each failure of code is shown once, right after it, a callback that did not succeed is
  complained about right after it, and nothing else is shown;
* `Stage.noticed_run`: so it is in a run. Its own failure is the first of those shown, and none is
  shown twice.
-/

namespace WorkerHost
variable {C : Type}

/-! ## Computations of which only the events are known -/

/-- A computation as the events that it can have, and its result with them. -/
def Eventful (C α : Type) : Type := List (RunEvent C) → α → Prop

instance : Monad (Eventful C) where
  pure a es b := es = [] ∧ b = a
  bind x f es b := ∃ first a rest, es = first ++ rest ∧ x first a ∧ f a rest b

/-- A stage of which only the names of callbacks are known, and whether there is an interpreter. -/
def Stage.anything (name : C → String) (bound : Bool) : Stage (Eventful C) C where
  get es _ := es = []
  isReady es _ := es = []
  modify _ es _ := es = []
  callbacks _ es _ := es = []
  code _ es _ := es = []
  callbackName := name
  invoke phase _ c es outcome := es = [.called phase c outcome]
  execute _ code es outcome :=
    if bound then ∃ r, outcome = some r ∧ es = [.executed code r] else es = [] ∧ outcome = none
  notify text es _ := es = [.notified text]

/-! ## Events that are noticed -/

/-- The failure of a run that a failure of its code is. -/
inductive RunError.Stems (e : InterpreterError) : RunError → Prop
  | hookCode (phase : Phase) : Stems e (.hookCode phase e)
  | execution : Stems e (.execution e)

/-- Among the events of a run, each failure of code is shown right after it, and these are the
failures in their order. A callback that did not succeed is complained about. Nothing else is shown.
-/
inductive Noticed (name : C → String) : List (RunEvent C) → List RunError → Prop
  | nil : Noticed name [] []
  | called {phase : Phase} {c : C} {outcome : CallbackOutcome} {es : List (RunEvent C)}
      {failures : List RunError} (hcall : Stage.complaint phase (name c) outcome = none)
      (h : Noticed name es failures) : Noticed name (.called phase c outcome :: es) failures
  | complained {phase : Phase} {c : C} {outcome : CallbackOutcome} {text : String}
      {es : List (RunEvent C)} {failures : List RunError}
      (hcall : Stage.complaint phase (name c) outcome = some text) (h : Noticed name es failures) :
      Noticed name (.called phase c outcome :: .notified text :: es) failures
  | executed {code : String} {v : Value} {es : List (RunEvent C)} {failures : List RunError}
      (h : Noticed name es failures) : Noticed name (.executed code (.ok v) :: es) failures
  | failed {code : String} {e : InterpreterError} {failure : RunError} {es : List (RunEvent C)}
      {failures : List RunError} (hfailure : failure.Stems e) (h : Noticed name es failures) :
      Noticed name (.executed code (.error e) :: .notified failure.message :: es)
        (failure :: failures)

lemma Noticed.append {name : C → String} {es es' : List (RunEvent C)} {fs fs' : List RunError}
    (h : Noticed name es fs) (h' : Noticed name es' fs') :
    Noticed name (es ++ es') (fs ++ fs') := by
  induction h with
  | nil => exact h'
  | called hcall _ ih => exact .called hcall ih
  | complained hcall _ ih => exact .complained hcall ih
  | executed _ ih => exact .executed ih
  | failed hfailure _ ih => exact .failed hfailure ih

/-- The failures that a result tells of. -/
def failuresOf {α : Type} : Except RunError α → List RunError
  | .ok _ => []
  | .error e => [e]

/-! ## The parts of a run -/

namespace Stage
variable {name : C → String} {bound : Bool} {mode : RunMode} {phase : Phase} {run : RunDescriptor}
  {es : List (RunEvent C)}

lemma noticed_callAll {cs : List C} {n : ℕ}
    (h : (anything name bound).callAll phase run cs es n) : Noticed name es [] := by
  induction cs generalizing es n with
  | nil =>
    obtain ⟨rfl, -⟩ := h
    exact .nil
  | cons c rest ih =>
    obtain ⟨_, outcome, tail, rfl, rfl, hrest⟩ := h
    -- a complaint follows the call exactly if the callback did not succeed
    cases hcall : complaint phase (name c) outcome with
    | none =>
      simp only [anything, hcall] at hrest
      exact .called hcall (ih hrest)
    | some text =>
      simp only [anything, hcall] at hrest
      obtain ⟨_, _, _, rfl, rfl, _, _, _, rfl, hcalls, rfl, -⟩ := hrest
      rw [List.append_nil]
      exact .complained hcall (ih hcalls)

lemma noticed_fire {n : ℕ} (h : (anything name bound).fire phase run es n) :
    Noticed name es [] := by
  obtain ⟨_, cs, _, rfl, rfl, hcalls⟩ := h
  exact noticed_callAll hcalls

lemma noticed_ensureReadyAsync {u : Unit} (h : (anything name bound).ensureReadyAsync run es u) :
    Noticed name es [] := by
  obtain ⟨_, l, _, rfl, rfl, h⟩ := h
  cases hready : l.ready with
  | true =>
    rw [hready] at h
    obtain ⟨rfl, -⟩ := h
    exact .nil
  | false =>
    rw [hready] at h
    obtain ⟨_, _, _, rfl, hfire, rfl⟩ := h
    rw [List.append_nil]
    exact noticed_fire hfire

lemma noticed_gate {u : Unit} (h : (anything name bound).gate mode run es u) :
    Noticed name es [] := by
  cases mode with
  | async => exact noticed_ensureReadyAsync h
  | sync =>
    obtain ⟨_, ready, _, rfl, rfl, h⟩ := h
    cases ready with
    | true =>
      obtain ⟨rfl, -⟩ := h
      exact .nil
    | false => exact noticed_ensureReadyAsync h

/-- Code of a phase that is executed has shown its failure, which says where it comes from. -/
lemma noticed_executeCode {r : Except RunError Unit}
    (h : (anything name bound).executeCode mode phase es r) : Noticed name es (failuresOf r) ∧
      ∀ e, r = .error e → bound = true ∧ ∃ e', e = .hookCode phase e' := by
  rw [executeCode_eq] at h
  obtain ⟨_, code, _, rfl, rfl, h⟩ := h
  split at h
  · obtain ⟨rfl, rfl⟩ := h
    exact ⟨.nil, nofun⟩
  · obtain ⟨_, executed, _, rfl, hexecute, h⟩ := h
    cases bound with
    | false =>
      -- code that nothing can execute is passed over
      obtain ⟨rfl, rfl⟩ := hexecute
      obtain ⟨rfl, rfl⟩ := h
      exact ⟨.nil, nofun⟩
    | true =>
      obtain ⟨outcome, rfl, rfl⟩ := hexecute
      cases outcome with
      | ok v =>
        obtain ⟨rfl, rfl⟩ := h
        exact ⟨.executed .nil, nofun⟩
      | error e =>
        obtain ⟨_, _, _, rfl, rfl, rfl, rfl⟩ := h
        exact ⟨.failed (.hookCode phase) .nil, fun _ he => ⟨rfl, e, (Except.error.inj he).symm⟩⟩

/-- Up to the user's code only the code of a phase can fail. -/
lemma noticed_beforeRun {r : Except RunError Unit}
    (h : (anything name bound).beforeRun mode run es r) :
    Noticed name es (failuresOf r) ∧ ∀ e, r = .error e → bound = true := by
  rw [beforeRun_eq] at h
  -- the gate comes first, then the note of where the run is, then the code of the phase
  obtain ⟨_, _, _, rfl, hready, _, _, _, rfl, rfl, _, result, _, rfl, hcode, h⟩ := h
  obtain ⟨hcode, hfailed⟩ := noticed_executeCode hcode
  have hbefore := (noticed_gate hready).append hcode
  cases result with
  | error e =>
    obtain ⟨_, _, _, rfl, rfl, rfl, rfl⟩ := h
    rw [List.nil_append, List.nil_append, List.append_nil]
    exact ⟨hbefore, fun _ _ => (hfailed e rfl).1⟩
  | ok _ =>
    obtain ⟨_, _, _, rfl, hfire, _, _, _, rfl, rfl, rfl, rfl⟩ := h
    rw [List.nil_append, List.nil_append, List.append_nil, ← List.append_assoc]
    exact ⟨hbefore.append (noticed_fire hfire), nofun⟩

/-- The phases after a run, in one order or the other. -/
lemma noticed_afterPhases {r : Except RunError Unit}
    (h : (anything name bound).afterPhases mode run es r) : Noticed name es (failuresOf r) ∧
      ∀ e, r = .error e → bound = true ∧ ∃ e', e = .hookCode mode.phases.codeAfter e' := by
  rw [afterPhases_eq] at h
  obtain ⟨_, l, _, rfl, rfl, h⟩ := h
  cases horder : l.order with
  | callbacksFirst =>
    rw [horder] at h
    obtain ⟨_, _, _, rfl, hfire, hcode⟩ := h
    obtain ⟨hcode, hfailed⟩ := noticed_executeCode hcode
    exact ⟨(noticed_fire hfire).append hcode, hfailed⟩
  | codeFirst =>
    rw [horder] at h
    obtain ⟨_, _, _, rfl, hcode, _, _, _, rfl, hfire, rfl, rfl⟩ := h
    obtain ⟨hcode, hfailed⟩ := noticed_executeCode hcode
    have h := hcode.append (noticed_fire hfire)
    rw [List.append_nil] at h ⊢
    exact ⟨h, hfailed⟩

/-- What follows the user's code, with its outcome settled by the failure of the code after the run.
-/
lemma noticed_afterRun {outcome r : Except RunError Value}
    (h : (anything name bound).afterRun mode run outcome es r) : ∃ code : Except RunError Unit,
      r = Behaviour.settle outcome code ∧ Noticed name es (failuresOf code) ∧
      ∀ e, code = .error e → bound = true ∧ ∃ e', e = .hookCode mode.phases.codeAfter e' := by
  rw [afterRun_eq] at h
  obtain ⟨_, _, _, rfl, rfl, _, code, _, rfl, hcode, _, _, _, rfl, rfl, rfl, rfl⟩ := h
  obtain ⟨hcode, hfailed⟩ := noticed_afterPhases hcode
  refine ⟨code, ?_, ?_, hfailed⟩
  · cases outcome <;> cases code <;> rfl
  · rw [List.nil_append, List.nil_append, List.append_nil]
    exact hcode

/-! ## Whole runs -/

lemma nodup_settle {outcome : Except RunError Value} {code : Except RunError Unit}
    (hne : ∀ e, outcome = .error e → code ≠ .error e) :
    (failuresOf outcome ++ failuresOf code).Nodup := by
  cases outcome with
  | ok v => cases code <;> simp [failuresOf]
  | error e =>
    cases code with
    | ok _ => simp [failuresOf]
    | error e' => simpa [failuresOf, eq_comm] using hne e rfl

/-- A run fails with the first of its failures. -/
lemma settle_eq_error {outcome : Except RunError Value} {code : Except RunError Unit}
    (e : RunError) : Behaviour.settle outcome code = .error e ↔
      (failuresOf outcome ++ failuresOf code).head? = some e := by
  cases outcome <;> cases code <;> simp [failuresOf, Behaviour.settle]

/-- The user's code in an interpreter, and the report of its failure. -/
lemma noticed_executeUser {code : String} {outcome : Except RunError Value} {u : Unit}
    {es' : List (RunEvent C)} (h : (anything name true).executeUser mode code es outcome)
    (h' : (anything name true).reportFailure outcome es' u) :
    Noticed name (es ++ es') (failuresOf outcome) ∧
      ∀ e, outcome = .error e → ∃ e', e = .execution e' := by
  obtain ⟨_, _, _, rfl, ⟨result, rfl, rfl⟩, rfl, rfl⟩ := h
  cases result with
  | ok v =>
    obtain ⟨rfl, -⟩ := h'
    exact ⟨.executed .nil, nofun⟩
  | error e =>
    obtain rfl : es' = _ := h'
    exact ⟨.failed .execution .nil, fun _ he => ⟨e, (Except.error.inj he).symm⟩⟩

/-- Each failure of a run's code is shown once. The first of them is the failure of the run, and if
there is none the run has a value. -/
theorem noticed_run {code : String} {result : Except RunError Value}
    (h : (anything name true).run mode run code es result) :
    ∃ failures, Noticed name es failures ∧ failures.Nodup ∧
      ∀ e, result = .error e ↔ failures.head? = some e := by
  rw [run_eq, around_eq] at h
  obtain ⟨_, before, _, rfl, hbefore, h⟩ := h
  have hbefore := (noticed_beforeRun hbefore).1
  cases before with
  | error e =>
    obtain ⟨rfl, rfl⟩ := h
    rw [List.append_nil]
    exact ⟨[e], hbefore, by simp, fun _ => by simp⟩
  | ok _ =>
    obtain ⟨_, outcome, _, rfl, huser, _, _, _, rfl, hreport, hafter⟩ := h
    obtain ⟨huser, hexecution⟩ := noticed_executeUser huser hreport
    obtain ⟨code, rfl, hafter, hhook⟩ := noticed_afterRun hafter
    have h := hbefore.append (huser.append hafter)
    rw [List.append_assoc] at h
    refine ⟨_, h, nodup_settle fun e houtcome hcode => ?_, settle_eq_error⟩
    -- one failure is of the user's code, the other one of a phase
    obtain ⟨_, rfl⟩ := hexecution e houtcome
    obtain ⟨-, _, he⟩ := hhook _ hcode
    exact RunError.noConfusion he

end Stage
end WorkerHost
