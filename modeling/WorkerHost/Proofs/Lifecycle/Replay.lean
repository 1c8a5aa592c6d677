import WorkerHost.Proofs.Lifecycle.Run
import WorkerHost.Proofs.Lifecycle.Transcript

/-!
# Traces from transcripts

The events of a run can be read off its transcript. To say which events these may be, one needs
surroundings in which callbacks and code end as they did: `Behaviour.replay` are those in which the
registry stays as it is, and everything ends as it did in a list of events.

* `Behaviour.Calls.inTurn`: the calls of a phase are one for each callback, in their order;
* `Behaviour.run_before_of_unbound` and `Behaviour.run_after_of_unbound`: without an interpreter a
  run calls the callbacks of its phases, and nothing else happens.
-/

namespace WorkerHost
variable {C : Type}

/-! ## Events of transcripts -/

/-- The event that an exchange is, if it is one. -/
def StageExchange.event? : StageExchange C → Option (RunEvent C)
  | ⟨.invoke p _ c, outcome⟩ => some (.called p c outcome)
  | ⟨.execute _ code, some r⟩ => some (.executed code r)
  | ⟨.notify text, _⟩ => some (.notified text)
  | _ => none

namespace RunEvent

/-- The event is a call or an execution, and says how it ended. -/
def ends : RunEvent C → Bool
  | called .. | executed .. => true
  | notified _ => false

/-- The events of a transcript. -/
def ofTranscript (es : List (StageExchange C)) : List (RunEvent C) :=
  es.filterMap StageExchange.event?

lemma ofTranscript_append (es es' : List (StageExchange C)) :
    ofTranscript (es ++ es') = ofTranscript es ++ ofTranscript es' :=
  List.filterMap_append

/-- Those events of a transcript that say how something ended. -/
def endings (es : List (StageExchange C)) : List (RunEvent C) :=
  (ofTranscript es).filter ends

lemma endings_append (es es' : List (StageExchange C)) :
    endings (es ++ es') = endings es ++ endings es' := by
  rw [endings, ofTranscript_append, List.filter_append]
  rfl

/-- Callbacks are called one by one, each once. What is shown right after a call is a complaint, if
the callback did not succeed. -/
inductive InTurn (name : C → String) (phase : Phase) : List C → List (RunEvent C) → Prop
  | nil : InTurn name phase [] []
  | cons (c : C) (outcome : CallbackOutcome) {rest : List C} {es : List (RunEvent C)}
      (h : InTurn name phase rest es) :
      InTurn name phase (c :: rest) (.called phase c outcome ::
        ((Stage.complaint phase (name c) outcome).toList.map .notified ++ es))

/-- No code is executed in the turn of callbacks. -/
lemma InTurn.not_executed {name : C → String} {phase : Phase} {cs : List C} {es : List (RunEvent C)}
    (h : InTurn name phase cs es) (code : String) (r : Except InterpreterError Value) :
    .executed code r ∉ es := by
  induction h with
  | nil => simp
  | cons c outcome _ ih => simp [ih]

end RunEvent

namespace Behaviour
variable {ω : Type} {b : Behaviour C ω} {mode : RunMode} {phase : Phase} {run : RunDescriptor}
  {l : Lifecycle} {x x₁ x₂ : Registry C × ω} {es : List (RunEvent C)}

lemma complaints_eq (c : C) (outcome : CallbackOutcome) : b.complaints phase c outcome =
    (Stage.complaint phase (b.callbackName c) outcome).toList.map .notified := by
  cases outcome <;> rfl

lemma Calls.inTurn {cs : List C} (h : b.Calls phase run l cs x es x₁) :
    RunEvent.InTurn b.callbackName phase cs es := by
  induction h with
  | nil => exact .nil
  | cons hcall _ ih =>
    rw [complaints_eq]
    exact .cons _ _ ih

section
variable (hregistry : ∀ phase c x, (b.call phase run c l x).2.1 = x.1)
include hregistry

lemma Calls.registry_eq {cs : List C} (h : b.Calls phase run l cs x es x₁) : x₁.1 = x.1 := by
  induction h with
  | nil => rfl
  | @cons c rest x x₁ x₂ outcome es hcall _ ih =>
    have hcalled := hregistry phase c x
    rw [hcall] at hcalled
    exact ih.trans hcalled

lemma Readies.registry_eq (h : b.Readies run l x es x₁) : x₁.1 = x.1 := by
  cases h with
  | already _ => rfl
  | fires _ hcalls => exact hcalls.registry_eq hregistry

end

/-! ## How runs fail -/

/-- The user's code fails as such. -/
lemma RunsUser.eq_execution {code : String} {e : RunError}
    (h : b.RunsUser mode code x es (.error e) x₁) : ∃ e', e = .execution e' := by
  cases h with
  | unbound => exact ⟨_, rfl⟩
  | failed => exact ⟨_, rfl⟩

/-- A run fails with the user's code or with the code of a phase. -/
lemma RunTrace.eq_of_error {code : String} {e : RunError}
    (h : b.RunTrace mode run code l x es (.error e) x₁) :
    (∃ e', e = .execution e') ∨ ∃ phase e', e = .hookCode phase e' := by
  generalize houtcome : Except.error e = outcome at h
  cases h with
  | aborted _ _ => exact .inr ⟨_, _, Except.error.inj houtcome⟩
  | @completed _ _ _ _ _ outcome result _ _ _ _ _ _ _ _ huser hafter =>
    cases outcome with
    | error e =>
      obtain rfl := Except.error.inj houtcome
      exact .inl huser.eq_execution
    | ok v =>
      cases result with
      | ok _ => cases houtcome
      | error e =>
        obtain rfl := Except.error.inj houtcome
        refine .inr ?_
        cases hafter with
        | callbacksFirst _ _ hcode | codeFirst _ hcode _ => exact ⟨_, hcode.eq_hookCode⟩

/-! ## Runs without an interpreter -/

/-- Before a run that no interpreter is bound to, callbacks are called, and nothing can fail. -/
lemma run_before_of_unbound (hbound : b.interpreter = none) {ready calls : List (RunEvent C)}
    (hready : b.Readies run l x ready x₁)
    (hcalls : b.Fires mode.phases.before run (during l run .beforeRun) x₁ calls x₂)
    (trace : List (RunEvent C)) :
    (b.stage.ensureReadyAsync run >>= fun _ => b.stage.beforeRun mode run).run ⟨l, x, trace⟩ =
      (.ok (), ⟨during l run .executing, x₂, trace ++ (ready ++ calls)⟩) := by
  rw [run_bind_of_run (hready.run_async_eq trace)]
  -- the gate is open by now
  have hbefore := run_beforeRun_of_ok (l := { l with ready := true }) (.already rfl)
    (.unbound hbound) hcalls (trace ++ ready)
  rw [hbefore, List.nil_append, List.nil_append, List.append_assoc]
  rfl

/-- So it is after it. -/
lemma run_after_of_unbound (hbound : b.interpreter = none) {calls : List (RunEvent C)}
    (hcalls : b.Fires mode.phases.after run (l.enter run .afterRun) x calls x₁)
    (outcome : Except RunError Value) (trace : List (RunEvent C)) :
    (b.stage.afterRun mode run outcome).run ⟨l, x, trace⟩ =
      (outcome, ⟨l.leave run, x₁, trace ++ calls⟩) := by
  have hafter : b.RunsAfter mode run (l.enter run .afterRun) x calls (.ok ()) x₁ := by
    cases horder : (l.enter run .afterRun).order with
    | callbacksFirst =>
      have h := RunsAfter.callbacksFirst horder hcalls (.unbound hbound)
      rwa [List.append_nil] at h
    | codeFirst => exact RunsAfter.codeFirst horder (.unbound hbound) hcalls
  rw [run_afterRun_of_runsAfter hafter]
  cases outcome <;> rfl

/-! ## Replays -/

/-- The surroundings in which callbacks and code end as in some events, one after the other, and
change nothing. -/
def replay (name : C → String) (bound : Bool) : Behaviour C (List (RunEvent C)) where
  callbackName := name
  call _ _ _ _ x :=
    match x.2 with
    | .called _ _ outcome :: rest => (outcome, x.1, rest)
    | _ => (.done, x)
  interpreter :=
    if bound then
      some fun _ _ x =>
        match x.2 with
        | .executed _ r :: rest => (r, x.1, rest)
        | _ => (.ok .null, x)
    else none

lemma registry_replay (name : C → String) (bound : Bool) (c : C)
    (x : Registry C × List (RunEvent C)) :
    ((replay name bound).call phase run c l x).2.1 = x.1 := by
  dsimp only [replay]
  split <;> rfl

/-- What a run without an interpreter does before its body: if the gate is not open yet it opens it,
and then it calls the callbacks of its phase. -/
lemma replay_before (name : C → String) (mode : RunMode) (run : RunDescriptor) (l : Lifecycle)
    (r : Registry C) (w : List (RunEvent C)) : ∃ ready calls x,
      (((replay name false).stage.ensureReadyAsync run >>= fun _ =>
        (replay name false).stage.beforeRun mode run).run ⟨l, (r, w), []⟩ =
          (.ok (), ⟨during l run .executing, x, ready ++ calls⟩)) ∧
      (if l.ready then ready = []
        else RunEvent.InTurn name .onReady (r.callbacksOf .onReady) ready) ∧
      RunEvent.InTurn name mode.phases.before (r.callbacksOf mode.phases.before) calls := by
  obtain ⟨ready, x₁, hready⟩ := (replay name false).exists_readies run l (r, w)
  obtain ⟨calls, x₂, hcalls⟩ :=
    (replay name false).exists_fires mode.phases.before run (during l run .beforeRun) x₁
  have hregistry : x₁.1 = r := hready.registry_eq fun _ => registry_replay name false
  refine ⟨ready, calls, x₂, ?_, ?_, hregistry ▸ hcalls.inTurn⟩
  · rw [run_before_of_unbound rfl hready hcalls, List.nil_append]
  · cases hready with
    | already hready => exact (if_pos hready).mpr rfl
    | fires hready hcalls =>
      rw [if_neg (by simp [hready])]
      exact hcalls.inTurn

/-- What it does after its body: it calls the callbacks of its phase. -/
lemma replay_after (name : C → String) (mode : RunMode) (run : RunDescriptor)
    (outcome : Except RunError Value) (l : Lifecycle) (r : Registry C)
    (w trace : List (RunEvent C)) : ∃ calls x,
      ((replay name false).stage.afterRun mode run outcome).run ⟨l, (r, w), trace⟩ =
        (outcome, ⟨l.leave run, x, trace ++ calls⟩) ∧
      RunEvent.InTurn name mode.phases.after (r.callbacksOf mode.phases.after) calls := by
  obtain ⟨calls, x, hcalls⟩ :=
    (replay name false).exists_fires mode.phases.after run (l.enter run .afterRun) (r, w)
  exact ⟨calls, x, run_after_of_unbound rfl hcalls outcome trace, hcalls.inTurn⟩

end Behaviour
end WorkerHost
