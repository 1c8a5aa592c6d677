import WorkerHost.Proofs.Lifecycle.History

/-!
# Phases fire on a snapshot

Callbacks may change the hooks of any phase while they run, their own included. A phase calls the
callbacks that it has found as it began, and what has been changed is found by the phases after it.

`Behaviour.Goes` says this of a part of a run: the history is longer by turns with some phases, in
which every phase finds what is registered for it by then, and the registry has become what the
changes of these turns make of it. Parts one after the other are such a part again, and so is a
whole run: `Behaviour.run_snapshots`.

Whatever a callback of a local context does, its registry changes by the changes that the actions of
the callback ask for, one after the other. `LocalContext.changes` collects them by calling the
callback in a scope that also writes down what it is asked to change.
-/

namespace WorkerHost

/-! ## What callbacks of a local context change -/

namespace LocalContext

/-- A context, and the changes that its registry was asked for. -/
abbrev Edited := LocalContext × List (HookChange Callback)

variable {α β : Type}

/-- A computation that asks for no change. -/
def unedited (x : StateM LocalContext α) : StateM Edited α := fun t =>
  let (a, c) := x t.1
  (a, (c, t.2))

/-- What callbacks are told and can do, with the changes that they ask for written down. -/
def editedScope (bound : Bool) (c : LocalContext) : CallbackScope (StateM Edited) where
  role := (scope bound c).role
  config := (scope bound c).config
  hasWorker := (scope bound c).hasWorker
  log text := unedited ((scope bound c).log text)
  display v := unedited ((scope bound c).display v)
  field? v key := unedited ((scope bound c).field? v key)
  interpreter? := unedited (scope bound c).interpreter?
  execute code := unedited ((scope bound c).execute code)
  stateText? run := unedited ((scope bound c).stateText? run)
  change add role phase group spec := fun t =>
    let (answer, c) := change add role phase group spec t.1
    (answer, (c, t.2 ++ [⟨add, role, phase, (t.1.mentions.hook group spec).1⟩]))

/-- The computation `y` does what `x` does, and writes down what becomes of the registry. -/
def Edits (x : StateM LocalContext α) (y : StateM Edited α) : Prop :=
  ∀ t, ∃ new, y.run t = ((x.run t.1).1, ((x.run t.1).2, t.2 ++ new)) ∧
    (x.run t.1).2.registry = (t.1.registry.applyAll new).2

lemma Edits.bind {x : StateM LocalContext α} {y : StateM Edited α} {f : α → StateM LocalContext β}
    {g : α → StateM Edited β} (hx : Edits x y) (hf : ∀ a, Edits (f a) (g a)) :
    Edits (x >>= f) (y >>= g) := by
  intro t
  -- the second part starts with the changes of the first one written down
  obtain ⟨new, hy, hregistry⟩ := hx t
  obtain ⟨new', hg, hregistry'⟩ := hf (x.run t.1).1 ((x.run t.1).2, t.2 ++ new)
  refine ⟨new ++ new', ?_, ?_⟩
  · rw [run_bind_of_run hy, hg, List.append_assoc]
    rfl
  · rw [Registry.applyAll_append, ← hregistry]
    exact hregistry'

/-- That changes are written down, as a relation. -/
def edits : MonadRel (StateM LocalContext) (StateM Edited) where
  rel := Edits
  pure a t := ⟨[], by rw [List.append_nil]; rfl, rfl⟩
  bind := .bind

lemma edits_unedited {x : StateM LocalContext α} (hx : ∀ c, (x.run c).2.registry = c.registry) :
    Edits x (unedited x) :=
  fun t => ⟨[], by rw [List.append_nil]; rfl, hx t.1⟩

lemma registry_execute (bound : Bool) (code : String) (c : LocalContext) :
    ((execute bound code).run c).2.registry = c.registry := by
  cases bound with
  | false => rfl
  | true => rw [run_execute]

lemma edits_scope (bound : Bool) (c : LocalContext) :
    (scope bound c).Lockstep edits (editedScope bound c) where
  role := rfl
  config := rfl
  hasWorker := rfl
  log _ := edits_unedited fun _ => rfl
  display _ := edits_unedited fun _ => rfl
  field? _ _ := edits_unedited fun _ => rfl
  interpreter? := edits_unedited fun _ => rfl
  execute code := edits_unedited (registry_execute bound code)
  stateText? _ := edits_unedited fun _ => rfl
  change add role phase group spec t :=
    ⟨_, rfl, congrArg (·.2.1) (t.1.registry.change_eq t.1.mentions add role phase group spec)⟩

/-- What is written down of a call is what becomes of the registry. -/
lemma registry_invoke (bound : Bool) (phase : Phase) (run : RunDescriptor) (c : Callback)
    (ctx : LocalContext) : (((scope bound ctx).invoke phase run c).run ctx).2.registry =
      (ctx.registry.applyAll
        (((editedScope bound ctx).invoke phase run c).run (ctx, [])).2.2).2 := by
  have hinvoke : Edits ((scope bound ctx).invoke phase run c)
      ((editedScope bound ctx).invoke phase run c) := (edits_scope bound ctx).invoke phase
  obtain ⟨new, hrun, hregistry⟩ := hinvoke (ctx, [])
  rw [hrun]
  exact hregistry

/-- The changes that the callbacks of a local context make; its shell makes none. -/
def changes (bound : Bool) : (behaviour bound).Changes where
  ofCall phase run c l x :=
    let before := x.2.context x.1 l []
    (((editedScope bound before).invoke phase run c).run (before, [])).2.2
  ofCode _ _ _ := []
  call_eq phase run c l x := registry_invoke bound phase run c (x.2.context x.1 l [])
  code_eq execute hbound mode code x := by
    cases bound with
    | false => cases hbound
    | true =>
      cases hbound
      rfl

end LocalContext

open HookEvent

namespace Behaviour
variable {C ω : Type} [BEq C] {b : Behaviour C ω}

/-! ## Parts of a run -/

/-- The history has become longer, and the registry is what the changes that have come to it make
of it. -/
structure Adds (new : List (HookEvent C)) (t t' : Observed C ω) : Prop where
  history : t'.history = t.history ++ new
  registry : t'.registry = (t.registry.applyAll (changesIn new)).2
  seen : Seen t.registry new
  order : t'.recorded.lifecycle.order = t.recorded.lifecycle.order

namespace Adds
variable {t t₁ t₂ : Observed C ω} {new new' : List (HookEvent C)}

lemma nil (t : Observed C ω) : Adds [] t t :=
  ⟨(List.append_nil _).symm, rfl, seen_of_forall_phase? nofun, rfl⟩

lemma trans (h : Adds new t t₁) (h' : Adds new' t₁ t₂) : Adds (new ++ new') t t₂ := by
  refine ⟨?_, ?_, h.seen.append ?_, h'.order.trans h.order⟩
  · rw [h'.history, h.history, List.append_assoc]
  · rw [h'.registry, h.registry, changesIn_append, Registry.applyAll_append]
  · rw [← h.registry]
    exact h'.seen

end Adds

/-- A part of a run with some phases. -/
def Goes (b : Behaviour C ω) (ps : List Phase) (t t' : Observed C ω) : Prop :=
  ∃ new, Adds new t t' ∧ b.Turns ps new

namespace Goes
variable {t t₁ t₂ : Observed C ω} {ps ps' : List Phase} {new : List (HookEvent C)}

lemma of_turn (h : Adds new t t₁) (hturn : b.Turn ps new) : b.Goes ps t t₁ :=
  ⟨new, h, .of_turn hturn⟩

lemma nil (h : Adds [] t t₁) : b.Goes [] t t₁ := ⟨[], h, .nil⟩

lemma trans (h : b.Goes ps t t₁) (h' : b.Goes ps' t₁ t₂) : b.Goes (ps ++ ps') t t₂ := by
  obtain ⟨new, hadds, hturns⟩ := h
  obtain ⟨new', hadds', hturns'⟩ := h'
  exact ⟨new ++ new', hadds.trans hadds', hturns.append hturns'⟩

/-- What adds nothing before or after a part makes no difference. -/
lemma after (h : b.Goes ps t₁ t₂) (hquiet : Adds [] t t₁) : b.Goes ps t t₂ :=
  (nil hquiet).trans h

lemma before (h : b.Goes ps t t₁) (hquiet : Adds [] t₁ t₂) : b.Goes ps t t₂ := by
  have := h.trans (nil hquiet)
  rwa [List.append_nil] at this

lemma order (h : b.Goes ps t t₁) :
    t₁.recorded.lifecycle.order = t.recorded.lifecycle.order := by
  obtain ⟨new, hadds, -⟩ := h
  exact hadds.order

end Goes

variable (ch : b.Changes) (mode : RunMode) (run : RunDescriptor)

/-! ## Operations -/

section
variable (t : Observed C ω)

lemma run_get_observed : (b.observed ch).get.run t = (t.recorded.lifecycle, t) := rfl

/-- The lifecycle says nothing about hooks. -/
lemma exists_modify (f : Lifecycle → Lifecycle) (hf : ∀ l, (f l).order = l.order) :
    ∃ t', ((b.observed ch).modify f).run t = ((), t') ∧ Adds [] t t' :=
  ⟨_, rfl, (List.append_nil _).symm, rfl, seen_of_forall_phase? nofun, hf _⟩

lemma exists_notify (text : String) :
    ∃ t', ((b.observed ch).notify text).run t = ((), t') ∧ Adds [] t t' :=
  ⟨_, rfl, (List.append_nil _).symm, rfl, seen_of_forall_phase? nofun, rfl⟩

lemma exists_callbacks (phase : Phase) :
    ∃ t', ((b.observed ch).callbacks phase).run t = (t.registry.callbacksOf phase, t') ∧
      Adds [.begun phase (t.registry.callbacksOf phase)] t t' :=
  ⟨_, rfl, rfl, rfl, seen_singleton rfl, rfl⟩

lemma exists_code (phase : Phase) :
    ∃ t', ((b.observed ch).code phase).run t = (t.registry.composed phase, t') ∧
      Adds [.composed phase (t.registry.composed phase)] t t' :=
  ⟨_, rfl, rfl, rfl, seen_singleton rfl, rfl⟩

lemma seen_cons_map_changed {r : Registry C} {e : HookEvent C} (he : e.phase? = none)
    (cs : List (HookChange C)) : Seen r (e :: cs.map .changed) :=
  seen_of_forall_phase? (List.forall_mem_cons.2 ⟨he, fun _ => phase?_of_mem_map_changed cs⟩)

lemma exists_invoke (phase : Phase) (c : C) : ∃ outcome t', ∃ cs : List (HookChange C),
    ((b.observed ch).invoke phase run c).run t = (outcome, t') ∧
      Adds (.called phase c :: cs.map .changed) t t' := by
  refine ⟨_, _, ch.ofCall phase run c t.recorded.lifecycle t.recorded.context, rfl, rfl, ?_,
    seen_cons_map_changed rfl _, rfl⟩
  refine (ch.call_eq phase run c t.recorded.lifecycle t.recorded.context).trans ?_
  exact congrArg (fun cs => (t.registry.applyAll cs).2) (changesIn_map_changed _).symm

/-- Code is executed if there is an interpreter. -/
lemma execute_cases (code : String) :
    (b.interpreter = none ∧ ∃ t', ((b.observed ch).execute mode code).run t = (none, t') ∧
      Adds [] t t') ∨
    (b.interpreter ≠ none ∧ ∃ outcome t', ∃ cs : List (HookChange C),
      ((b.observed ch).execute mode code).run t = (some outcome, t') ∧
        Adds (.executed code :: cs.map .changed) t t') := by
  cases hbound : b.interpreter with
  | none =>
    have hrun : (b.stage.execute mode code).run t.recorded = (none, t.recorded) :=
      run_execute_unbound hbound code t.recorded
    have hnoted := Observed.run_noting hrun (noteExecution ch mode code)
    rw [noteExecution, List.append_nil] at hnoted
    exact .inl ⟨rfl, t, hnoted, .nil t⟩
  | some execute =>
    have hrun : (b.stage.execute mode code).run t.recorded = _ :=
      run_execute_bound hbound rfl t.recorded.trace
    have hnoted := Observed.run_noting hrun (noteExecution ch mode code)
    refine .inr ⟨nofun, _, _, ch.ofCode mode code t.recorded.context, hnoted, rfl, ?_,
      seen_cons_map_changed rfl _, rfl⟩
    refine (ch.code_eq execute hbound mode code t.recorded.context).trans ?_
    exact congrArg (fun cs => (t.registry.applyAll cs).2) (changesIn_map_changed _).symm

end

/-! ## Phases -/

/-- Callbacks are called in turn, and no failure keeps the others from being called. -/
lemma exists_callAll (phase : Phase) (cs : List C) (t : Observed C ω) : ∃ n t' calls,
    ((b.observed ch).callAll phase run cs).run t = (n, t') ∧ Adds calls t t' ∧
      CallsOf phase cs calls := by
  -- the list is fixed, while the state changes with every call
  induction cs generalizing t with
  | nil => exact ⟨0, t, [], rfl, .nil t, .nil⟩
  | cons c rest ih =>
    obtain ⟨outcome, t₁, changes, hinvoke, hadds⟩ := exists_invoke ch run t phase c
    unfold Stage.callAll
    rw [run_bind_of_run hinvoke]
    cases Stage.complaint phase ((b.observed ch).callbackName c) outcome with
    | none =>
      obtain ⟨n, t', calls, hrun, hadds', hcalls⟩ := ih t₁
      exact ⟨n, t', _, hrun, hadds.trans hadds', hcalls.cons c changes⟩
    | some text =>
      obtain ⟨t₂, hnotify, hquiet⟩ := exists_notify ch t₁ text
      obtain ⟨n, t', calls, hrun, hadds', hcalls⟩ := ih t₂
      refine ⟨n + 1, t', _, ?_, hadds.trans (hquiet.trans hadds'), hcalls.cons c changes⟩
      show ((b.observed ch).notify text >>= fun _ => _).run t₁ = _
      rw [run_bind_of_run hnotify, run_bind_of_run hrun]
      rfl

/-- A phase calls what it has found, whatever becomes of the registry meanwhile. -/
lemma exists_fire (phase : Phase) (t : Observed C ω) : ∃ n t',
    ((b.observed ch).fire phase run).run t = (n, t') ∧ b.Goes [phase] t t' := by
  obtain ⟨t₁, hcallbacks, hbegun⟩ := exists_callbacks ch t phase
  obtain ⟨n, t', calls, hrun, hadds, hcalls⟩ :=
    exists_callAll ch run phase (t.registry.callbacksOf phase) t₁
  refine ⟨n, t', ?_, .of_turn (hbegun.trans hadds) (.fired hcalls)⟩
  unfold Stage.fire
  rw [run_bind_of_run hcallbacks, hrun]

/-- The code of a phase is executed or passed over, and it fails as such. -/
lemma exists_executeCode (phase : Phase) (t : Observed C ω) : ∃ result t',
    ((b.observed ch).executeCode mode phase).run t = (result, t') ∧ b.Goes [phase] t t' ∧
      ∀ e, result = .error e → ∃ e', e = .hookCode phase e' := by
  obtain ⟨t₁, hcode, hcomposed⟩ := exists_code ch t phase
  rw [Stage.executeCode_eq, run_bind_of_run hcode]
  cases hempty : (t.registry.composed phase).isEmpty with
  | true => exact ⟨.ok (), t₁, rfl, .of_turn hcomposed (.skipped (.inl hempty)), nofun⟩
  | false =>
    rw [if_neg (by decide)]
    rcases execute_cases ch mode t₁ (t.registry.composed phase) with
      ⟨hnone, t₂, hexecute, hquiet⟩ | ⟨-, outcome, t₂, cs, hexecute, hexecuted⟩
    · refine ⟨.ok (), t₂, ?_, .of_turn (hcomposed.trans hquiet) (.skipped (.inr hnone)), nofun⟩
      rw [run_bind_of_run hexecute]
      rfl
    · have hgoes : b.Goes [phase] t t₂ := .of_turn (hcomposed.trans hexecuted) (.ran phase _ cs)
      rw [run_bind_of_run hexecute]
      cases outcome with
      | ok v => exact ⟨.ok (), t₂, rfl, hgoes, nofun⟩
      | error e =>
        obtain ⟨t₃, hnotify, hquiet⟩ :=
          exists_notify ch t₂ (RunError.hookCode phase e).message
        refine ⟨.error (.hookCode phase e), t₃, ?_, ?_, fun _ h => ⟨e, by cases h; rfl⟩⟩
        · show ((b.observed ch).notify _ >>= fun _ => _).run t₂ = _
          rw [run_bind_of_run hnotify]
          rfl
        · exact hgoes.before hquiet

/-! ## Runs -/

/-- The phase `onReady`, unless it is over. -/
def readyPhases (l : Lifecycle) : List Phase := if l.ready then [] else [.onReady]

/-- The phases after the user's code, in the configured order. -/
def afterPhases (l : Lifecycle) (mode : RunMode) : List Phase :=
  match l.order with
  | .callbacksFirst => [mode.phases.after, mode.phases.codeAfter]
  | .codeFirst => [mode.phases.codeAfter, mode.phases.after]

lemma afterPhases_congr {l l' : Lifecycle} (h : l'.order = l.order) :
    afterPhases l' mode = afterPhases l mode := by
  rw [afterPhases, afterPhases, h]

lemma exists_ensureReadyAsync (t : Observed C ω) : ∃ t',
    ((b.observed ch).ensureReadyAsync run).run t = ((), t') ∧
      b.Goes (readyPhases t.recorded.lifecycle) t t' := by
  unfold Stage.ensureReadyAsync readyPhases
  rw [run_bind_of_run (run_get_observed ch t)]
  cases t.recorded.lifecycle.ready with
  | true => exact ⟨t, rfl, .nil (.nil t)⟩
  | false =>
    obtain ⟨n, t₁, hfire, hgoes⟩ := exists_fire ch run .onReady t
    obtain ⟨t', hmodify, hquiet⟩ := exists_modify ch t₁
      (fun l => { l with ready := true }) fun _ => rfl
    refine ⟨t', ?_, hgoes.before hquiet⟩
    rw [if_pos (by decide), run_bind_of_run hfire, hmodify]

lemma exists_gate (t : Observed C ω) : ∃ t', ((b.observed ch).gate mode run).run t = ((), t') ∧
    b.Goes (readyPhases t.recorded.lifecycle) t t' := by
  obtain ⟨t', hready, hgoes⟩ := exists_ensureReadyAsync ch run t
  cases mode with
  | async => exact ⟨t', hready, hgoes⟩
  | sync =>
    have hlook : (b.observed ch).isReady.run t = (t.recorded.lifecycle.ready, t) := rfl
    have hgate : ((b.observed ch).gate .sync run).run t =
        (if t.recorded.lifecycle.ready then pure ()
          else (b.observed ch).ensureReadyAsync run).run t := run_bind_of_run hlook
    rw [hgate]
    cases hopen : t.recorded.lifecycle.ready with
    | true => exact ⟨t, rfl, by simpa [readyPhases, hopen] using Goes.nil (.nil t)⟩
    | false => exact ⟨t', hready, hgoes⟩

/-- If the code before the run fails, it is the last phase. -/
lemma exists_beforeRun (t : Observed C ω) : ∃ result t',
    ((b.observed ch).beforeRun mode run).run t = (result, t') ∧
      match result with
      | .ok () => b.Goes (readyPhases t.recorded.lifecycle ++
          [mode.phases.codeBefore, mode.phases.before]) t t'
      | .error e => (∃ e', e = .hookCode mode.phases.codeBefore e') ∧
          b.Goes (readyPhases t.recorded.lifecycle ++ [mode.phases.codeBefore]) t t' := by
  obtain ⟨t₁, hready, hgoes₁⟩ := exists_gate ch mode run t
  obtain ⟨t₂, henter, hquiet₂⟩ := exists_modify ch t₁
    (fun l => l.enter run .beforeRun) fun _ => rfl
  obtain ⟨result, t₃, hcode, hgoes₃, hfailed⟩ :=
    exists_executeCode ch mode mode.phases.codeBefore t₂
  have hgoes := hgoes₁.trans (hgoes₃.after hquiet₂)
  rw [Stage.beforeRun_eq, run_bind_of_run hready, run_bind_of_run henter, run_bind_of_run hcode]
  cases result with
  | error e =>
    obtain ⟨t₄, hleave, hquiet₄⟩ := exists_modify ch t₃ (fun l => l.leave run) fun _ => rfl
    refine ⟨.error e, t₄, ?_, hfailed e rfl, hgoes.before hquiet₄⟩
    show ((b.observed ch).modify _ >>= fun _ => _).run t₃ = _
    rw [run_bind_of_run hleave]
    rfl
  | ok _ =>
    obtain ⟨n, t₄, hfire, hgoes₄⟩ := exists_fire ch run mode.phases.before t₃
    obtain ⟨t₅, hexecuting, hquiet₅⟩ := exists_modify ch t₄
      (fun l => l.enter run .executing) fun _ => rfl
    refine ⟨.ok (), t₅, ?_, ?_⟩
    · show ((b.observed ch).fire _ run >>= fun _ => _).run t₃ = _
      rw [run_bind_of_run hfire, run_bind_of_run hexecuting]
      rfl
    · have := (hgoes.trans hgoes₄).before hquiet₅
      rwa [List.append_assoc] at this

lemma exists_afterPhases (t : Observed C ω) : ∃ result t',
    ((b.observed ch).afterPhases mode run).run t = (result, t') ∧
      b.Goes (afterPhases t.recorded.lifecycle mode) t t' := by
  unfold afterPhases
  rw [Stage.afterPhases_eq, run_bind_of_run (run_get_observed ch t)]
  cases t.recorded.lifecycle.order with
  | callbacksFirst =>
    obtain ⟨n, t₁, hfire, hgoes₁⟩ := exists_fire ch run mode.phases.after t
    obtain ⟨result, t', hcode, hgoes, -⟩ :=
      exists_executeCode ch mode mode.phases.codeAfter t₁
    exact ⟨result, t', (run_bind_of_run hfire).trans hcode, hgoes₁.trans hgoes⟩
  | codeFirst =>
    obtain ⟨result, t₁, hcode, hgoes₁, -⟩ :=
      exists_executeCode ch mode mode.phases.codeAfter t
    obtain ⟨n, t', hfire, hgoes⟩ := exists_fire ch run mode.phases.after t₁
    refine ⟨result, t', ?_, hgoes₁.trans hgoes⟩
    refine (run_bind_of_run hcode).trans ?_
    rw [run_bind_of_run hfire]
    rfl

lemma exists_afterRun (outcome : Except RunError Value) (t : Observed C ω) : ∃ result t',
    ((b.observed ch).afterRun mode run outcome).run t = (result, t') ∧
      b.Goes (afterPhases t.recorded.lifecycle mode) t t' := by
  obtain ⟨t₁, henter, hquiet₁⟩ := exists_modify ch t
    (fun l => l.enter run .afterRun) fun _ => rfl
  obtain ⟨code, t₂, hphases, hgoes⟩ := exists_afterPhases ch mode run t₁
  obtain ⟨t', hleave, hquiet⟩ := exists_modify ch t₂ (fun l => l.leave run) fun _ => rfl
  rw [afterPhases_congr mode hquiet₁.order] at hgoes
  refine ⟨settle outcome code, t', ?_, (hgoes.after hquiet₁).before hquiet⟩
  rw [Stage.afterRun_eq, run_bind_of_run henter, run_bind_of_run hphases, run_bind_of_run hleave]
  cases outcome <;> cases code <;> rfl

lemma exists_executeUser (code : String) (t : Observed C ω) : ∃ outcome t',
    ((b.observed ch).executeUser mode code).run t = (outcome, t') ∧ b.Goes [] t t' := by
  unfold Stage.executeUser
  rcases execute_cases ch mode t code with
    ⟨-, t', hexecute, hquiet⟩ | ⟨-, outcome, t', cs, hexecute, hexecuted⟩
  · exact ⟨.error Stage.noInterpreter, t', run_bind_of_run hexecute, .nil hquiet⟩
  · exact ⟨outcome.mapError .execution, t', run_bind_of_run hexecute,
      .of_turn hexecuted (.user code cs)⟩

lemma exists_reportFailure (outcome : Except RunError Value) (t : Observed C ω) : ∃ t',
    ((b.observed ch).reportFailure outcome).run t = ((), t') ∧ b.Goes [] t t' := by
  cases outcome with
  | ok v => exact ⟨t, rfl, .nil (.nil t)⟩
  | error e =>
    cases e with
    | remote e => exact ⟨t, rfl, .nil (.nil t)⟩
    | hookCode | execution | transport =>
      obtain ⟨t', hnotify, hquiet⟩ := exists_notify ch t _
      exact ⟨t', hnotify, .nil hquiet⟩

/-- The phases of a run, if the code before it does not fail. -/
def runPhases (l : Lifecycle) (mode : RunMode) : List Phase :=
  readyPhases l ++ [mode.phases.codeBefore, mode.phases.before] ++ afterPhases l mode

/-- A run goes through all its phases, unless the code before it fails. -/
lemma exists_run (code : String) (t : Observed C ω) : ∃ result t',
    ((b.observed ch).run mode run code).run t = (result, t') ∧
      (b.Goes (runPhases t.recorded.lifecycle mode) t t' ∨
        (∃ e, result = .error (.hookCode mode.phases.codeBefore e)) ∧
          b.Goes (readyPhases t.recorded.lifecycle ++ [mode.phases.codeBefore]) t t') := by
  rw [Stage.run_eq, Stage.around_eq]
  obtain ⟨before, t₁, hbefore, hgoes₁⟩ :=
    exists_beforeRun ch mode run t
  rw [run_bind_of_run hbefore]
  cases before with
  | error e =>
    obtain ⟨⟨e', rfl⟩, hgoes⟩ := hgoes₁
    exact ⟨_, t₁, rfl, .inr ⟨⟨e', rfl⟩, hgoes⟩⟩
  | ok _ =>
    obtain ⟨outcome, t₂, huser, hgoes₂⟩ := exists_executeUser ch mode code t₁
    obtain ⟨t₃, hreport, hgoes₃⟩ := exists_reportFailure ch outcome t₂
    obtain ⟨result, t', hafter, hgoes₄⟩ :=
      exists_afterRun ch mode run outcome t₃
    refine ⟨result, t', ?_, .inl ?_⟩
    · show ((b.observed ch).executeUser mode code >>= fun outcome => _).run t₁ = _
      rw [run_bind_of_run huser, run_bind_of_run hreport, hafter]
    · have horder : t₃.recorded.lifecycle.order = t.recorded.lifecycle.order := by
        rw [hgoes₃.order, hgoes₂.order, hgoes₁.order]
      rw [afterPhases_congr mode horder] at hgoes₄
      exact hgoes₁.trans (hgoes₂.trans (hgoes₃.trans hgoes₄))

/-! ## Snapshots -/

/-- A run from a recorded state, with the history of its hooks. -/
def observe (s : Recorded C ω) (code : String) : Except RunError Value × Observed C ω :=
  ((b.observed ch).run mode run code).run ⟨s, []⟩

/-- What becomes of the hooks in a run from a state to another one. -/
structure Snapshots (b : Behaviour C ω) (mode : RunMode) (s : Recorded C ω)
    (result : Except RunError Value) (t : Observed C ω) : Prop where
  /-- the phases come in their order, and no others do -/
  phases : phasesIn t.history = runPhases s.lifecycle mode ∨
    (∃ e, result = .error (.hookCode mode.phases.codeBefore e)) ∧
      phasesIn t.history = readyPhases s.lifecycle ++ [mode.phases.codeBefore]
  /-- a phase finds the callbacks that are registered for it after all changes made before -/
  found : ∀ {before after phase cs}, t.history = before ++ .begun phase cs :: after →
    cs = (s.context.1.applyAll (changesIn before)).2.callbacksOf phase ∧ Distinct cs
  /-- and calls these, each once and in their order, before anything else begins -/
  calls : ∀ {before after phase cs}, t.history = before ++ .begun phase cs :: after →
    callsIn (after.takeWhile ofCalls) = cs.map (phase, ·)
  /-- so the calls are those of the phases, and there are no others -/
  called : callsIn t.history = t.history.flatMap HookEvent.found
  /-- a phase composes the code that is registered for it after all changes made before -/
  composed : ∀ {before after phase code}, t.history = before ++ .composed phase code :: after →
    code = (s.context.1.applyAll (changesIn before)).2.composed phase
  /-- and executes just this code next, if there is any, and an interpreter -/
  executed : ∀ {before after phase code}, t.history = before ++ .composed phase code :: after →
    code.isEmpty = false → b.interpreter ≠ none → after.head? = some (.executed code)
  /-- no change is lost -/
  changed : t.registry = (s.context.1.applyAll (changesIn t.history)).2

/-- Whatever hooks callbacks and code register and remove while a run goes on, a phase calls the
callbacks that it has found as it began, and every later phase finds what has been changed. -/
theorem run_snapshots [EquivBEq C] (b : Behaviour C ω) (ch : b.Changes) (mode : RunMode)
    (run : RunDescriptor) (code : String) {role : Role} {policy : RolePolicy}
    {cs : List (HookChange C)} (s : Recorded C ω)
    (hs : s.context.1 = ((Registry.new role policy).applyAll cs).2) :
    ∃ result t, observe ch mode run s code = (result, t) ∧
      (b.stage.run mode run code).run s = (result, t.recorded) ∧ Snapshots b mode s result t := by
  have hdistinct (more : List (HookChange C)) (phase : Phase) :
      Distinct ((s.context.1.applyAll more).2.callbacksOf phase) := by
    rw [hs, ← Registry.applyAll_append]
    exact Registry.distinct_callbacksOf role policy (cs ++ more) phase
  obtain ⟨result, t, hrun, hgoes⟩ := exists_run ch mode run code ⟨s, []⟩
  have hlockstep := (lockstep_observed ch).wholeRun mode run code ⟨s, []⟩
  rw [hrun] at hlockstep
  refine ⟨result, t, hrun, hlockstep, ?_⟩
  -- whether it fails early or not, the run adds turns to an empty history
  obtain ⟨new, hadds, ps, hturns, hps⟩ : ∃ new, Adds new ⟨s, []⟩ t ∧
      ∃ ps, b.Turns ps new ∧ (ps = runPhases s.lifecycle mode ∨
        (∃ e, result = .error (.hookCode mode.phases.codeBefore e)) ∧
          ps = readyPhases s.lifecycle ++ [mode.phases.codeBefore]) := by
    rcases hgoes with ⟨new, hadds, hturns⟩ | ⟨hfailed, new, hadds, hturns⟩
    · exact ⟨new, hadds, _, hturns, .inl rfl⟩
    · exact ⟨new, hadds, _, hturns, .inr ⟨hfailed, rfl⟩⟩
  obtain rfl : t.history = new := hadds.history
  refine ⟨?_, fun heq => ?_, hturns.calls_of_begun, hturns.callsIn_eq, hadds.seen _ _ _,
    hturns.executed_of_composed, hadds.registry⟩
  · rw [hturns.phasesIn_eq]
    exact hps
  · obtain rfl := hadds.seen _ _ _ heq
    exact ⟨rfl, hdistinct _ _⟩

/-- A callback that takes out itself and the one after it, and adds one to its own phase and to a
later one, and code to a later one. -/
def meddler : Callback :=
  ⟨0, "meddler", [.change false none "onBeforeRun" (.callback "meddler" none []),
    .change false none "onBeforeRun" (.callback "bystander" none []),
    .change true none "onBeforeRun" (.callback "late" none []),
    .change true none "onAfterRun" (.callback "late" none []),
    .change true none "codeAfterRun" (.code "  set done $_\n")], 0⟩

def bystander : Callback := ⟨1, "bystander", [], 0⟩

/-- Both are registered, in this order. -/
def meddledChanges : List (HookChange Callback) :=
  [⟨true, .host, .onBeforeRun, .callback meddler⟩,
    ⟨true, .host, .onBeforeRun, .callback bystander⟩]

/-- A local context with these callbacks. -/
def meddled : Recorded Callback LocalContext.World :=
  let shell : LocalShell := ⟨.empty, ⟨.discard, none, []⟩, Shell.new Shell.currentVersion⟩
  let mentions : Mentions := ⟨[((0, "bystander"), bystander), ((0, "meddler"), meddler)]⟩
  ⟨.new .callbacksFirst,
    (((Registry.new .host .reject).applyAll meddledChanges).2, ⟨shell, mentions, .null, []⟩), []⟩

/-- Both callbacks are called, and what the first one adds to its own phase is not; what it adds to
later phases is called and executed. -/
theorem run_snapshots_meddled :
    EquivBEq Callback ∧
    meddled.context.1 = ((Registry.new .host .reject).applyAll meddledChanges).2 ∧
    ∃ result t, observe (LocalContext.changes true) .sync ⟨1, "test", .sync⟩ meddled "set _ 1" =
        (result, t) ∧
      Snapshots (LocalContext.behaviour true) .sync meddled result t ∧
      (callsIn t.history).map (fun call => (call.1, call.2.name)) =
        [(.onBeforeRun, "meddler"), (.onBeforeRun, "bystander"), (.onAfterRun, "late")] ∧
      t.recorded.context.2.shell.shell.var? "done" = some "1" := by
  obtain ⟨result, t, hobserve, -, hsnapshots⟩ := run_snapshots (LocalContext.behaviour true)
    (LocalContext.changes true) .sync ⟨1, "test", .sync⟩ "set _ 1" meddled rfl
  refine ⟨inferInstance, rfl, result, t, hobserve, hsnapshots, ?_⟩
  obtain rfl : _ = t := congrArg Prod.snd hobserve
  decide +kernel

end Behaviour
end WorkerHost
