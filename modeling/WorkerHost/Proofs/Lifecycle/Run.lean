import WorkerHost.Proofs.Lifecycle.Modes
import WorkerHost.Proofs.Lifecycle.Trace

/-!
# Runs and their traces

Every part of the lifecycle, run through the stage of a behaviour, appends to the trace what the
corresponding part of `Behaviour.RunTrace` says, and nothing else. A computation has one outcome, so
the trace is determined.

* `Behaviour.exists_runTrace`: every run has a trace;
* `Behaviour.RunTrace.run_eq`: the lifecycle goes through that trace, and the run leaves the table;
* `Behaviour.run_trace`: so it produces this trace and result, and no other is possible.
-/

namespace WorkerHost

/-- A computation over a state goes on from where its first part ends. -/
lemma run_bind_of_run {σ α β : Type} {x : StateM σ α} {f : α → StateM σ β} {s s' : σ} {a : α}
    (h : x.run s = (a, s')) : (x >>= f).run s = (f a).run s' := by
  show f (x.run s).1 (x.run s).2 = _
  rw [h]
  rfl

/-! ## The run table -/

namespace Lifecycle

/-- Only the last note of where a run is counts. -/
lemma enter_enter (l : Lifecycle) (run : RunDescriptor) (s s' : RunState) :
    (l.enter run s).enter run s' = l.enter run s' := by
  simp [enter]

lemma leave_enter (l : Lifecycle) (run : RunDescriptor) (s : RunState) :
    (l.enter run s).leave run = l.leave run := by
  simp [enter, leave]

/-- A run that is over is not in the table. -/
lemma runState?_leave (l : Lifecycle) (run : RunDescriptor) :
    (l.leave run).runState? run = none := by
  simp [runState?, leave]

end Lifecycle

namespace Behaviour
variable {C ω : Type} {b : Behaviour C ω} {mode : RunMode} {phase : Phase}
  {run : RunDescriptor} {l : Lifecycle} {x x' : Registry C × ω} {es trace : List (RunEvent C)}

lemma run_notify (t : Recorded C ω) (text : String) :
    (b.stage.notify text).run t = ((), { t with trace := t.trace ++ [.notified text] }) := rfl

lemma run_get (t : Recorded C ω) : b.stage.get.run t = (t.lifecycle, t) := rfl

lemma run_isReady (t : Recorded C ω) : b.stage.isReady.run t = (t.lifecycle.ready, t) := rfl

lemma run_modify (f : Lifecycle → Lifecycle) (t : Recorded C ω) :
    (b.stage.modify f).run t = ((), { t with lifecycle := f t.lifecycle }) := rfl

/-! ## Callbacks -/

lemma run_invoke {c : C} {outcome : CallbackOutcome}
    (hcall : b.call phase run c l x = (outcome, x')) (trace : List (RunEvent C)) :
    (b.stage.invoke phase run c).run ⟨l, x, trace⟩ =
      (outcome, ⟨l, x', trace ++ [.called phase c outcome]⟩) := by
  simp only [stage, StateT.run, hcall]

/-- A callback is called, and complained about if it did not succeed. -/
lemma run_callAll_cons {c : C} {rest : List C} {outcome : CallbackOutcome}
    (hcall : b.call phase run c l x = (outcome, x')) {n : ℕ} {t : Recorded C ω}
    (hrest : (b.stage.callAll phase run rest).run
      ⟨l, x', trace ++ .called phase c outcome :: b.complaints phase c outcome⟩ = (n, t)) :
    ∃ n, (b.stage.callAll phase run (c :: rest)).run ⟨l, x, trace⟩ = (n, t) := by
  unfold Stage.callAll
  rw [run_bind_of_run (run_invoke hcall trace)]
  cases outcome with
  | done => exact ⟨n, hrest⟩
  | failed text =>
    refine ⟨n + 1, ?_⟩
    show (b.stage.notify _ >>= fun _ => _).run _ = _
    rw [run_bind_of_run (run_notify _ _), run_bind_of_run ?_]
    · rfl
    · simpa [complaints, stage] using hrest
  | panicked =>
    refine ⟨n + 1, ?_⟩
    show (b.stage.notify _ >>= fun _ => _).run _ = _
    rw [run_bind_of_run (run_notify _ _), run_bind_of_run ?_]
    · rfl
    · simpa [complaints, stage] using hrest

lemma Calls.run_eq {cs : List C} (h : b.Calls phase run l cs x es x') (trace : List (RunEvent C)) :
    ∃ n, (b.stage.callAll phase run cs).run ⟨l, x, trace⟩ = (n, ⟨l, x', trace ++ es⟩) := by
  induction h generalizing trace with
  | nil x =>
    rw [List.append_nil]
    exact ⟨0, rfl⟩
  | @cons c rest x x₁ x₂ outcome es hcall hrest ih =>
    obtain ⟨n, hn⟩ := ih (trace ++ .called phase c outcome :: b.complaints phase c outcome)
    have := run_callAll_cons hcall hn
    simpa using this

lemma exists_calls (b : Behaviour C ω) (phase : Phase) (run : RunDescriptor) (l : Lifecycle)
    (cs : List C) (x : Registry C × ω) : ∃ es x', b.Calls phase run l cs x es x' := by
  induction cs generalizing x with
  | nil => exact ⟨[], x, .nil x⟩
  | cons c rest ih =>
    obtain ⟨es, x', hrest⟩ := ih (b.call phase run c l x).2
    exact ⟨_, x', .cons rfl hrest⟩

lemma Fires.run_eq (h : b.Fires phase run l x es x') (trace : List (RunEvent C)) :
    ∃ n, (b.stage.fire phase run).run ⟨l, x, trace⟩ = (n, ⟨l, x', trace ++ es⟩) :=
  Calls.run_eq h trace

lemma exists_fires (b : Behaviour C ω) (phase : Phase) (run : RunDescriptor) (l : Lifecycle)
    (x : Registry C × ω) : ∃ es x', b.Fires phase run l x es x' :=
  b.exists_calls phase run l _ x

/-! ## The gate -/

lemma Readies.run_async_eq (h : b.Readies run l x es x') (trace : List (RunEvent C)) :
    (b.stage.ensureReadyAsync run).run ⟨l, x, trace⟩ =
      ((), ⟨{ l with ready := true }, x', trace ++ es⟩) := by
  unfold Stage.ensureReadyAsync
  rw [run_bind_of_run (run_get _)]
  cases h with
  | already hready =>
    obtain ⟨order, ready, runs, nextRun⟩ := l
    cases hready
    rw [List.append_nil]
    rfl
  | fires hready hcalls =>
    obtain ⟨n, hn⟩ := hcalls.run_eq trace
    rw [if_pos (by simp [hready]), run_bind_of_run hn]
    rfl

/-- To have looked first changes nothing. -/
lemma Readies.run_eq (h : b.Readies run l x es x') (trace : List (RunEvent C)) :
    (b.stage.gate mode run).run ⟨l, x, trace⟩ =
      ((), ⟨{ l with ready := true }, x', trace ++ es⟩) := by
  cases mode with
  | async => exact h.run_async_eq trace
  | sync =>
    show (b.stage.ensureReady run).run _ = _
    unfold Stage.ensureReady
    rw [run_bind_of_run (run_isReady _)]
    cases hready : l.ready with
    | true =>
      rw [if_pos rfl]
      cases h with
      | already =>
        rw [List.append_nil, ← hready]
        rfl
      | fires hclosed => simp [hready] at hclosed
    | false => exact h.run_async_eq trace

lemma exists_readies (b : Behaviour C ω) (run : RunDescriptor) (l : Lifecycle)
    (x : Registry C × ω) : ∃ es x', b.Readies run l x es x' := by
  cases hready : l.ready with
  | true => exact ⟨[], x, .already hready⟩
  | false =>
    obtain ⟨es, x', hcalls⟩ := b.exists_fires .onReady run l x
    exact ⟨es, x', .fires hready hcalls⟩

/-! ## Code -/

lemma run_execute_unbound (hbound : b.interpreter = none) (code : String) (t : Recorded C ω) :
    (b.stage.execute mode code).run t = (none, t) := by
  simp only [stage, StateT.run, hbound]

lemma run_execute_bound {execute} (hbound : b.interpreter = some execute) {code : String}
    {outcome : Except InterpreterError Value} (hrun : execute mode code x = (outcome, x'))
    (trace : List (RunEvent C)) : (b.stage.execute mode code).run ⟨l, x, trace⟩ =
      (some outcome, ⟨l, x', trace ++ [.executed code outcome]⟩) := by
  simp only [stage, StateT.run, hbound, hrun]

lemma RunsCode.run_eq {result : Except RunError Unit} (h : b.RunsCode mode phase x es result x')
    (trace : List (RunEvent C)) : (b.stage.executeCode mode phase).run ⟨l, x, trace⟩ =
      (result, ⟨l, x', trace ++ es⟩) := by
  have hcode : (b.stage.code phase).run ⟨l, x, trace⟩ = (x.1.composed phase, ⟨l, x, trace⟩) := rfl
  rw [Stage.executeCode_eq, run_bind_of_run hcode]
  cases h with
  | empty hempty =>
    rw [if_pos hempty, List.append_nil]
    rfl
  | unbound hbound =>
    split
    · rw [List.append_nil]
      rfl
    · rw [run_bind_of_run (run_execute_unbound hbound _ _), List.append_nil]
      rfl
  | done hne hbound hrun =>
    rw [if_neg (by simp [hne]), run_bind_of_run (run_execute_bound hbound hrun trace)]
    rfl
  | failed hne hbound hrun =>
    rw [if_neg (by simp [hne]), run_bind_of_run (run_execute_bound hbound hrun trace)]
    show (b.stage.notify _ >>= fun _ => _).run _ = _
    rw [run_bind_of_run (run_notify _ _)]
    simp only [List.append_assoc, List.cons_append, List.nil_append]
    rfl

lemma exists_runsCode (b : Behaviour C ω) (mode : RunMode) (phase : Phase) (x : Registry C × ω) :
    ∃ es result x', b.RunsCode mode phase x es result x' := by
  cases hcode : (x.1.composed phase).isEmpty with
  | true => exact ⟨_, _, _, .empty hcode⟩
  | false =>
    cases hbound : b.interpreter with
    | none => exact ⟨_, _, _, .unbound hbound⟩
    | some execute =>
      cases hrun : execute mode (x.1.composed phase) x with
      | mk outcome x' =>
        cases outcome with
        | ok v => exact ⟨_, _, _, .done hcode hbound hrun⟩
        | error e => exact ⟨_, _, _, .failed hcode hbound hrun⟩

/-- Code of a phase fails as such. -/
lemma RunsCode.eq_hookCode {e : RunError} (h : b.RunsCode mode phase x es (.error e) x') :
    ∃ e', e = .hookCode phase e' := by
  cases h with
  | failed => exact ⟨_, rfl⟩

/-- The user's code is executed, and then a failure notified. -/
lemma RunsUser.run_eq {code : String} {outcome : Except RunError Value}
    (h : b.RunsUser mode code x es outcome x') (trace : List (RunEvent C)) :
    ∃ executed,
      (b.stage.executeUser mode code).run ⟨l, x, trace⟩ = (outcome, ⟨l, x', executed⟩) ∧
      (b.stage.reportFailure outcome).run ⟨l, x', executed⟩ = ((), ⟨l, x', trace ++ es⟩) := by
  unfold Stage.executeUser
  cases h with
  | unbound hbound =>
    refine ⟨trace, ?_, rfl⟩
    rw [run_bind_of_run (run_execute_unbound hbound _ _)]
    rfl
  | done hbound hrun =>
    refine ⟨_, ?_, rfl⟩
    rw [run_bind_of_run (run_execute_bound hbound hrun trace)]
    rfl
  | @failed _ e _ hbound hrun =>
    refine ⟨trace ++ [.executed code (.error e)], ?_, ?_⟩
    · rw [run_bind_of_run (run_execute_bound hbound hrun trace)]
      rfl
    · show (b.stage.notify _).run _ = _
      rw [run_notify]
      simp only [List.append_assoc, List.cons_append, List.nil_append]

lemma exists_runsUser (b : Behaviour C ω) (mode : RunMode) (code : String) (x : Registry C × ω) :
    ∃ es outcome x', b.RunsUser mode code x es outcome x' := by
  cases hbound : b.interpreter with
  | none => exact ⟨_, _, _, .unbound hbound⟩
  | some execute =>
    cases hrun : execute mode code x with
    | mk outcome x' =>
      cases outcome with
      | ok v => exact ⟨_, _, _, .done hbound hrun⟩
      | error e => exact ⟨_, _, _, .failed hbound hrun⟩

/-! ## Before and after -/

lemma RunsAfter.run_eq {result : Except RunError Unit}
    (h : b.RunsAfter mode run l x es result x') (trace : List (RunEvent C)) :
    (b.stage.afterPhases mode run).run ⟨l, x, trace⟩ = (result, ⟨l, x', trace ++ es⟩) := by
  rw [Stage.afterPhases_eq, run_bind_of_run (run_get _)]
  cases h with
  | callbacksFirst horder hcalls hcode =>
    obtain ⟨n, hn⟩ := hcalls.run_eq trace
    simp only [horder]
    rw [run_bind_of_run hn, hcode.run_eq, List.append_assoc]
  | codeFirst horder hcode hcalls =>
    obtain ⟨n, hn⟩ := hcalls.run_eq (trace ++ _)
    simp only [horder]
    rw [run_bind_of_run (hcode.run_eq trace), run_bind_of_run hn, List.append_assoc]
    rfl

lemma exists_runsAfter (b : Behaviour C ω) (mode : RunMode) (run : RunDescriptor) (l : Lifecycle)
    (x : Registry C × ω) : ∃ es result x', b.RunsAfter mode run l x es result x' := by
  cases horder : l.order with
  | callbacksFirst =>
    obtain ⟨_, x₁, hcalls⟩ := b.exists_fires mode.phases.after run l x
    obtain ⟨_, result, x₂, hcode⟩ := b.exists_runsCode mode mode.phases.codeAfter x₁
    exact ⟨_, result, x₂, .callbacksFirst horder hcalls hcode⟩
  | codeFirst =>
    obtain ⟨_, result, x₁, hcode⟩ := b.exists_runsCode mode mode.phases.codeAfter x
    obtain ⟨_, x₂, hcalls⟩ := b.exists_fires mode.phases.after run l x₁
    exact ⟨_, result, x₂, .codeFirst horder hcode hcalls⟩

/-- If the code before the run fails, the run leaves the table at once. -/
lemma run_beforeRun_of_error {ready before : List (RunEvent C)} {e : RunError}
    {x₁ x₂ : Registry C × ω} (hready : b.Readies run l x ready x₁)
    (hbefore : b.RunsCode mode mode.phases.codeBefore x₁ before (.error e) x₂)
    (trace : List (RunEvent C)) : (b.stage.beforeRun mode run).run ⟨l, x, trace⟩ =
      (.error e, ⟨finished l run, x₂, trace ++ (ready ++ before)⟩) := by
  rw [Stage.beforeRun_eq, run_bind_of_run (hready.run_eq trace), run_bind_of_run (run_modify _ _),
    run_bind_of_run (hbefore.run_eq _)]
  show (b.stage.modify _ >>= fun _ => _).run _ = _
  rw [run_bind_of_run (run_modify _ _), Lifecycle.leave_enter, List.append_assoc]
  rfl

/-- Otherwise the callbacks follow, and the run is executing. -/
lemma run_beforeRun_of_ok {ready before calls : List (RunEvent C)} {x₁ x₂ x₃ : Registry C × ω}
    (hready : b.Readies run l x ready x₁)
    (hbefore : b.RunsCode mode mode.phases.codeBefore x₁ before (.ok ()) x₂)
    (hcalls : b.Fires mode.phases.before run (during l run .beforeRun) x₂ calls x₃)
    (trace : List (RunEvent C)) : (b.stage.beforeRun mode run).run ⟨l, x, trace⟩ =
      (.ok (), ⟨during l run .executing, x₃, trace ++ (ready ++ before ++ calls)⟩) := by
  rw [Stage.beforeRun_eq, run_bind_of_run (hready.run_eq trace), run_bind_of_run (run_modify _ _),
    run_bind_of_run (hbefore.run_eq _)]
  obtain ⟨n, hn⟩ := hcalls.run_eq (trace ++ ready ++ before)
  show (b.stage.fire _ run >>= fun _ => _).run
    ⟨during l run .beforeRun, x₂, trace ++ ready ++ before⟩ = _
  rw [run_bind_of_run hn, run_bind_of_run (run_modify _ _), during, Lifecycle.enter_enter]
  simp only [List.append_assoc]
  rfl

/-- After the after-run phases the run leaves the table, with the result settled. -/
lemma run_afterRun_of_runsAfter {outcome : Except RunError Value} {result : Except RunError Unit}
    (hafter : b.RunsAfter mode run (l.enter run .afterRun) x es result x')
    (trace : List (RunEvent C)) : (b.stage.afterRun mode run outcome).run ⟨l, x, trace⟩ =
      (settle outcome result, ⟨l.leave run, x', trace ++ es⟩) := by
  rw [Stage.afterRun_eq, run_bind_of_run (run_modify _ _), run_bind_of_run (hafter.run_eq trace),
    run_bind_of_run (run_modify _ _), Lifecycle.leave_enter]
  cases outcome <;> cases result <;> rfl

lemma run_afterRun {outcome : Except RunError Value} {result : Except RunError Unit} {s : RunState}
    (hafter : b.RunsAfter mode run (during l run .afterRun) x es result x')
    (trace : List (RunEvent C)) : (b.stage.afterRun mode run outcome).run
      ⟨during l run s, x, trace⟩ = (settle outcome result, ⟨finished l run, x', trace ++ es⟩) := by
  have henter : (during l run s).enter run .afterRun = during l run .afterRun :=
    Lifecycle.enter_enter _ run s .afterRun
  rw [run_afterRun_of_runsAfter (henter ▸ hafter), during, Lifecycle.leave_enter]
  rfl

/-! ## Whole runs -/

/-- Every run has a trace. -/
theorem exists_runTrace (b : Behaviour C ω) (mode : RunMode) (run : RunDescriptor) (code : String)
    (l : Lifecycle) (x : Registry C × ω) :
    ∃ es result x', b.RunTrace mode run code l x es result x' := by
  obtain ⟨_, x₁, hready⟩ := b.exists_readies run l x
  obtain ⟨_, before, x₂, hbefore⟩ := b.exists_runsCode mode mode.phases.codeBefore x₁
  cases before with
  | error e =>
    obtain ⟨e', rfl⟩ := hbefore.eq_hookCode
    exact ⟨_, _, x₂, .aborted hready hbefore⟩
  | ok _ =>
    obtain ⟨_, x₃, hcalls⟩ := b.exists_fires mode.phases.before run (during l run .beforeRun) x₂
    obtain ⟨_, outcome, x₄, huser⟩ := b.exists_runsUser mode code x₃
    obtain ⟨_, result, x₅, hafter⟩ := b.exists_runsAfter mode run (during l run .afterRun) x₄
    exact ⟨_, _, x₅, .completed hready hbefore hcalls huser hafter⟩

/-- The lifecycle goes through the trace of a run. -/
theorem RunTrace.run_eq {code : String} {result : Except RunError Value}
    (h : b.RunTrace mode run code l x es result x') (trace : List (RunEvent C)) :
    (b.stage.run mode run code).run ⟨l, x, trace⟩ =
      (result, ⟨finished l run, x', trace ++ es⟩) := by
  rw [Stage.run_eq, Stage.around_eq]
  cases h with
  | aborted hready hbefore =>
    rw [run_bind_of_run (run_beforeRun_of_error hready hbefore trace)]
    rfl
  | completed hready hbefore hcalls huser hafter =>
    rw [run_bind_of_run (run_beforeRun_of_ok hready hbefore hcalls trace)]
    obtain ⟨executed, hexecute, hreport⟩ := huser.run_eq (l := during l run .executing) (trace ++ _)
    show (b.stage.executeUser mode code >>= fun outcome => _).run _ = _
    rw [run_bind_of_run hexecute, run_bind_of_run hreport, run_afterRun hafter]
    simp only [List.append_assoc]

/-- A run produces exactly one trace and one result, those that `RunTrace` says, and leaves the run
table. -/
theorem run_trace (b : Behaviour C ω) (mode : RunMode) (run : RunDescriptor) (code : String)
    (l : Lifecycle) (x : Registry C × ω) (trace : List (RunEvent C)) :
    ∃ es result x',
      (b.stage.run mode run code).run ⟨l, x, trace⟩ = (result, ⟨finished l run, x', trace ++ es⟩) ∧
      (∀ es' result' x'', b.RunTrace mode run code l x es' result' x'' ↔
        es' = es ∧ result' = result ∧ x'' = x') ∧
      (finished l run).runState? run = none := by
  obtain ⟨es, result, x', htrace⟩ := b.exists_runTrace mode run code l x
  have hrun := htrace.run_eq trace
  refine ⟨es, result, x', hrun, fun es' result' x'' => ⟨fun htrace' => ?_, ?_⟩,
    Lifecycle.runState?_leave _ run⟩
  · -- two traces are appended to one trace by one run, so they are the same
    have hrun' := htrace'.run_eq trace
    obtain ⟨hresult, hstate⟩ := Prod.mk.inj (hrun'.symm.trans hrun)
    obtain ⟨-, hcontext, hevents⟩ := Recorded.mk.inj hstate
    exact ⟨List.append_cancel_left hevents, hresult, hcontext⟩
  · intro heq
    obtain ⟨rfl, rfl, rfl⟩ := heq
    exact htrace

end Behaviour
end WorkerHost
