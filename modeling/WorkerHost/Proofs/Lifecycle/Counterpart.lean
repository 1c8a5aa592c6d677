import Mathlib.Data.List.Forall2
import WorkerHost.Proofs.Lifecycle.Run
import WorkerHost.Proofs.Lifecycle.Transcript

/-!
# Runs of either mode

The phases of the two modes are counterparts of each other. A run of one mode does with a registry
what a run of the other mode, which has a driver of its own, does with the registry in which the
phases are exchanged: but for looks at the lifecycle it has the same transcript, with every phase
renamed, and the same result.

* `Behaviour.Counterpart` relates surroundings that differ in the names of the phases, and
  `Behaviour.counterpart_renamed` says that all surroundings have such counterparts;
* `Behaviour.run_counterpart` is the comparison of the runs. It also says that a run has nothing to
  do with the phases of the other mode.
-/

namespace WorkerHost
variable {C : Type}

/-! ## Counterparts -/

/-- The other mode. -/
def RunMode.other : RunMode → RunMode
  | sync => async
  | async => sync

lemma RunMode.other_other (mode : RunMode) : mode.other.other = mode := by
  cases mode <;> rfl

namespace Phase

/-- The phase of the other mode. -/
def counterpart : Phase → Phase
  | onReady => onReady
  | onBeforeRun => onBeforeRunAsync
  | onBeforeRunAsync => onBeforeRun
  | onAfterRun => onAfterRunAsync
  | onAfterRunAsync => onAfterRun
  | codeBeforeRun => codeBeforeRunAsync
  | codeBeforeRunAsync => codeBeforeRun
  | codeAfterRun => codeAfterRunAsync
  | codeAfterRunAsync => codeAfterRun

/-- The mode of the runs that a phase belongs to; `onReady` belongs to all. -/
def mode? : Phase → Option RunMode
  | onReady => none
  | onBeforeRun | onAfterRun | codeBeforeRun | codeAfterRun => some .sync
  | onBeforeRunAsync | onAfterRunAsync | codeBeforeRunAsync | codeAfterRunAsync => some .async

lemma counterpart_counterpart (p : Phase) : p.counterpart.counterpart = p := by
  cases p <;> rfl

lemma counterpart_inj {p p' : Phase} : p.counterpart = p'.counterpart ↔ p = p' := by
  refine ⟨fun h => ?_, congrArg _⟩
  rw [← p.counterpart_counterpart, h, p'.counterpart_counterpart]

/-- A run of a mode has to do with a phase. -/
def Of (mode : RunMode) (p : Phase) : Prop :=
  p = onReady ∨ p.mode? = some mode

lemma of_counterpart {mode : RunMode} {p : Phase} (h : p.Of mode) :
    p.counterpart.Of mode.other := by
  cases mode <;> cases p <;> simp_all [Of, counterpart, mode?, RunMode.other]

end Phase

/-- The failure with the phase of the other mode. -/
def RunError.counterpart : RunError → RunError
  | hookCode phase e => hookCode phase.counterpart e
  | e => e

/-- The descriptor of the run in the other mode. -/
def RunDescriptor.counterpart (d : RunDescriptor) : RunDescriptor :=
  { d with mode := d.mode.other }

lemma RunDescriptor.counterpart_counterpart (d : RunDescriptor) :
    d.counterpart.counterpart = d := by
  simp [counterpart, RunMode.other_other]

/-- The phases around the runs of a mode. -/
structure RunPhases.Of (mode : RunMode) (ps : RunPhases) : Prop where
  codeBefore : ps.codeBefore.Of mode
  before : ps.before.Of mode
  after : ps.after.Of mode
  codeAfter : ps.codeAfter.Of mode

namespace RunMode

lemma of_phases (mode : RunMode) : mode.phases.Of mode := by
  cases mode <;> exact ⟨.inr rfl, .inr rfl, .inr rfl, .inr rfl⟩

lemma phases_other (mode : RunMode) : mode.other.phases =
    ⟨mode.phases.codeBefore.counterpart, mode.phases.before.counterpart,
      mode.phases.after.counterpart, mode.phases.codeAfter.counterpart⟩ := by
  cases mode <;> rfl

end RunMode

/-- The table with the sets of every phase and its counterpart exchanged. -/
def PhaseTable.exchanged {α : Type} (t : PhaseTable α) : PhaseTable α :=
  ⟨t.entries.map fun e => (e.1.counterpart, e.2)⟩

lemma PhaseTable.get_exchanged {α : Type} (t : PhaseTable α) (p : Phase) :
    t.exchanged.get p.counterpart = t.get p := by
  have hfound : ((fun e : Phase × HookSet α => e.1 == p.counterpart) ∘
      fun e : Phase × HookSet α => (e.1.counterpart, e.2)) = fun e => e.1 == p := by
    funext e
    simp [Phase.counterpart_inj]
  simp only [get, exchanged, List.find?_map, hfound, Option.map_map]
  rfl

namespace Registry

/-- The registry with all that a phase and its counterpart have for runs exchanged. -/
def exchanged (r : Registry C) : Registry C :=
  { r with callbacks := r.callbacks.exchanged, code := r.code.exchanged }

lemma callbacksOf_exchanged (r : Registry C) (p : Phase) :
    r.exchanged.callbacksOf p.counterpart = r.callbacksOf p :=
  congrArg HookSet.toList (PhaseTable.get_exchanged _ p)

lemma composed_exchanged (r : Registry C) (p : Phase) :
    r.exchanged.composed p.counterpart = r.composed p :=
  congrArg (fun s : HookSet String => compose s.toList) (PhaseTable.get_exchanged _ p)

lemma exchanged_exchanged (r : Registry C) : r.exchanged.exchanged = r := by
  have htable {α : Type} (t : PhaseTable α) : t.exchanged.exchanged = t := by
    simp [PhaseTable.exchanged, Function.comp_def, Phase.counterpart_counterpart]
  simp [exchanged, htable]

end Registry

/-! ## Exchanges -/

/-- Whether an exchange is more than a look at the lifecycle. Runs that block look once more. -/
def StageExchange.acts (e : StageExchange C) : Bool :=
  match e.1 with
  | .get | .isReady => false
  | _ => true

/-- An exchange of a run of a mode, and the same one with its phase renamed. Notifications are those
about callbacks, which name the phase, and those about failures. -/
inductive StageExchange.Counterpart (mode : RunMode) : StageExchange C → StageExchange C → Prop
  | modify (f : Lifecycle → Lifecycle) : Counterpart mode ⟨.modify f, ()⟩ ⟨.modify f, ()⟩
  | callbacks {p : Phase} (hp : p.Of mode) (cs : List C) :
      Counterpart mode ⟨.callbacks p, cs⟩ ⟨.callbacks p.counterpart, cs⟩
  | code {p : Phase} (hp : p.Of mode) (text : String) :
      Counterpart mode ⟨.code p, text⟩ ⟨.code p.counterpart, text⟩
  | invoke {p : Phase} (hp : p.Of mode) (d : RunDescriptor) (c : C) (outcome : CallbackOutcome) :
      Counterpart mode ⟨.invoke p d c, outcome⟩ ⟨.invoke p.counterpart d.counterpart c, outcome⟩
  | execute (code : String) (r : Option (Except InterpreterError Value)) :
      Counterpart mode ⟨.execute mode code, r⟩ ⟨.execute mode.other code, r⟩
  | complaint {p : Phase} (hp : p.Of mode) {name : String} {outcome : CallbackOutcome}
      {text text' : String} (htext : Stage.complaint p name outcome = some text)
      (htext' : Stage.complaint p.counterpart name outcome = some text') :
      Counterpart mode ⟨.notify text, ()⟩ ⟨.notify text', ()⟩
  | failure (e : RunError) :
      Counterpart mode ⟨.notify e.message, ()⟩ ⟨.notify e.counterpart.message, ()⟩

/-- A question is about phases of a mode, and code is executed in that mode. -/
def StageAsk.Within (mode : RunMode) : StageAsk C → Prop
  | callbacks p | code p | invoke p _ _ => p.Of mode
  | execute mode' _ => mode' = mode
  | get | isReady | modify _ | notify _ | body => True

namespace StageExchange.Counterpart
variable {mode : RunMode} {e e' : StageExchange C}

lemma acts (h : Counterpart mode e e') : e.acts = true ∧ e'.acts = true := by
  cases h <;> exact ⟨rfl, rfl⟩

lemma within (h : Counterpart mode e e') : e.1.Within mode := by
  cases h with
  | callbacks hp _ | code hp _ | invoke hp _ _ _ => exact hp
  | execute _ _ => rfl
  | modify _ | complaint _ _ _ | failure _ => trivial

lemma within_other (h : Counterpart mode e e') : e'.1.Within mode.other := by
  cases h with
  | callbacks hp _ | code hp _ | invoke hp _ _ _ => exact Phase.of_counterpart hp
  | execute _ _ => rfl
  | modify _ | complaint _ _ _ | failure _ => trivial

end StageExchange.Counterpart

/-! ## Runs -/

namespace Behaviour
variable {ω : Type}

/-- The context with the registry exchanged. -/
def exchanged (x : Registry C × ω) : Registry C × ω :=
  (x.1.exchanged, x.2)

/-- Callbacks and code do with the phases of one mode what they do in `b` with those of the other
one. Surroundings in which neither mind the mode are counterparts of themselves. -/
structure Counterpart (b b' : Behaviour C ω) : Prop where
  callbackName : b'.callbackName = b.callbackName
  call (p : Phase) (d : RunDescriptor) (c : C) (l : Lifecycle) (x : Registry C × ω) :
    b'.call p.counterpart d.counterpart c l (exchanged x) =
      ((b.call p d c l x).1, exchanged (b.call p d c l x).2)
  unbound : b.interpreter = none → b'.interpreter = none
  bound : ∀ execute, b.interpreter = some execute → ∃ execute', b'.interpreter = some execute' ∧
    ∀ mode code x, execute' mode.other code (exchanged x) =
      ((execute mode code x).1, exchanged (execute mode code x).2)

/-- Transcripts and contexts correspond, but for looks at the lifecycle. -/
structure Similar (mode : RunMode) (es es' : List (StageExchange C)) (t t' : Recorded C ω) :
    Prop where
  transcript : (es.filter StageExchange.acts).Forall₂ (StageExchange.Counterpart mode)
    (es'.filter StageExchange.acts)
  lifecycle : t'.lifecycle = t.lifecycle
  context : t'.context = exchanged t.context

namespace Similar
variable {mode : RunMode} {es es' : List (StageExchange C)} {t t' : Recorded C ω}

/-- Looks are about no phase. -/
lemma within_of_acts (h : ∀ e ∈ es.filter StageExchange.acts, e.1.Within mode) :
    ∀ e ∈ es, e.1.Within mode := by
  intro e he
  cases hacts : e.acts with
  | true => exact h e (List.mem_filter.2 ⟨he, hacts⟩)
  | false =>
    obtain ⟨q, r⟩ := e
    cases q with
    | get | isReady => trivial
    | _ => cases hacts

lemma within (h : Similar mode es es' t t') : ∀ e ∈ es, e.1.Within mode :=
  within_of_acts ((List.forall₂_and_left (p := fun e : StageExchange C => e.1.Within mode) _ _).1
    (h.transcript.imp fun _ _ he => ⟨he.within, he⟩)).1

lemma within_other (h : Similar mode es es' t t') : ∀ e ∈ es', e.1.Within mode.other :=
  within_of_acts
    ((List.forall₂_and_left (p := fun e : StageExchange C => e.1.Within mode.other) _ _).1
      (h.transcript.flip.imp fun _ _ he => ⟨he.within_other, he⟩)).1

/-- One of the two looks at the lifecycle. -/
lemma look (h : Similar mode es es' t t') {e : StageExchange C} (he : e.acts = false) :
    Similar mode (es ++ [e]) es' t t' where
  transcript := by simpa [he] using h.transcript
  lifecycle := h.lifecycle
  context := h.context

lemma look_other (h : Similar mode es es' t t') {e : StageExchange C} (he : e.acts = false) :
    Similar mode es (es' ++ [e]) t t' where
  transcript := by simpa [he] using h.transcript
  lifecycle := h.lifecycle
  context := h.context

end Similar

/-- Computations that do corresponding things, with results that correspond by `f`. -/
def Agrees {α β : Type} (mode : RunMode) (f : α → β)
    (x : StateT (List (StageExchange C)) (StateM (Recorded C ω)) α)
    (y : StateT (List (StageExchange C)) (StateM (Recorded C ω)) β) : Prop :=
  ∀ es es' t t', Similar mode es es' t t' →
    ((y.run es').run t').1.1 = f ((x.run es).run t).1.1 ∧
    Similar mode ((x.run es).run t).1.2 ((y.run es').run t').1.2 ((x.run es).run t).2
      ((y.run es').run t').2

namespace Agrees
variable {mode : RunMode} {α β γ δ : Type} {f : α → β} {g : γ → δ}

lemma pure {a : α} {b : β} (h : b = f a) :
    Agrees mode f (Pure.pure a : StateT (List (StageExchange C)) (StateM (Recorded C ω)) α)
      (Pure.pure b) :=
  fun _ _ _ _ hsimilar => ⟨h, hsimilar⟩

lemma bind {x : StateT (List (StageExchange C)) (StateM (Recorded C ω)) α}
    {y : StateT (List (StageExchange C)) (StateM (Recorded C ω)) β}
    {k : α → StateT (List (StageExchange C)) (StateM (Recorded C ω)) γ}
    {k' : β → StateT (List (StageExchange C)) (StateM (Recorded C ω)) δ} (hx : Agrees mode f x y)
    (hk : ∀ a, Agrees mode g (k a) (k' (f a))) : Agrees mode g (x >>= k) (y >>= k') := by
  intro es es' t t' hsimilar
  obtain ⟨hresult, hsimilar'⟩ := hx es es' t t' hsimilar
  have hrest := hk ((x.run es).run t).1.1 _ _ _ _ hsimilar'
  rw [← hresult] at hrest
  exact hrest

/-- One exchange on either side. -/
lemma noted {q q' : StageAsk C} {x : StateM (Recorded C ω) q.Answer}
    {y : StateM (Recorded C ω) q'.Answer} {f : q.Answer → q'.Answer}
    (h : ∀ t t', t'.lifecycle = t.lifecycle → t'.context = exchanged t.context →
      ∃ r u u', x.run t = (r, u) ∧ y.run t' = (f r, u') ∧
        StageExchange.Counterpart mode ⟨q, r⟩ ⟨q', f r⟩ ∧
        u'.lifecycle = u.lifecycle ∧ u'.context = exchanged u.context) :
    Agrees mode f (Stage.noted q x) (Stage.noted q' y) := by
  intro es es' t t' hsimilar
  obtain ⟨r, u, u', hx, hy, hexchange, hlifecycle, hcontext⟩ :=
    h t t' hsimilar.lifecycle hsimilar.context
  have hnoted : ((Stage.noted q x).run es).run t = ((r, es ++ [⟨q, r⟩]), u) :=
    run_bind_of_run hx
  have hnoted' : ((Stage.noted q' y).run es').run t' = ((f r, es' ++ [⟨q', f r⟩]), u') :=
    run_bind_of_run hy
  rw [hnoted, hnoted']
  refine ⟨rfl, ?_, hlifecycle, hcontext⟩
  obtain ⟨hacts, hacts'⟩ := hexchange.acts
  simpa [hacts, hacts'] using List.rel_append hsimilar.transcript (.cons hexchange .nil)

end Agrees

section
variable {b b' : Behaviour C ω} {mode : RunMode} {p : Phase} {d : RunDescriptor}

lemma agrees_get : Agrees mode id b.stage.transcribed.get b'.stage.transcribed.get :=
  fun _ _ _ _ hsimilar => ⟨hsimilar.lifecycle, (hsimilar.look rfl).look_other rfl⟩

lemma agrees_modify (f : Lifecycle → Lifecycle) :
    Agrees mode id (b.stage.transcribed.modify f) (b'.stage.transcribed.modify f) :=
  .noted fun _ _ hlifecycle hcontext =>
    ⟨(), _, _, rfl, rfl, .modify f, congrArg f hlifecycle, hcontext⟩

lemma agrees_complaint (hp : p.Of mode) {name : String} {outcome : CallbackOutcome}
    {text text' : String} (htext : Stage.complaint p name outcome = some text)
    (htext' : Stage.complaint p.counterpart name outcome = some text') :
    Agrees mode id (b.stage.transcribed.notify text) (b'.stage.transcribed.notify text') :=
  .noted fun _ _ hlifecycle hcontext =>
    ⟨(), _, _, rfl, rfl, .complaint hp htext htext', hlifecycle, hcontext⟩

lemma agrees_failure (e : RunError) : Agrees mode id (b.stage.transcribed.notify e.message)
    (b'.stage.transcribed.notify e.counterpart.message) :=
  .noted fun _ _ hlifecycle hcontext =>
    ⟨(), _, _, rfl, rfl, .failure e, hlifecycle, hcontext⟩

lemma agrees_callbacks (hp : p.Of mode) : Agrees mode id (b.stage.transcribed.callbacks p)
    (b'.stage.transcribed.callbacks p.counterpart) := by
  refine .noted fun t t' hlifecycle hcontext => ⟨t.context.1.callbacksOf p, t, t', rfl, ?_,
    .callbacks hp _, hlifecycle, hcontext⟩
  show (t'.context.1.callbacksOf p.counterpart, t') = _
  rw [hcontext]
  exact congrArg (·, t') (Registry.callbacksOf_exchanged _ p)

lemma agrees_code (hp : p.Of mode) : Agrees mode id (b.stage.transcribed.code p)
    (b'.stage.transcribed.code p.counterpart) := by
  refine .noted fun t t' hlifecycle hcontext => ⟨t.context.1.composed p, t, t', rfl, ?_,
    .code hp _, hlifecycle, hcontext⟩
  show (t'.context.1.composed p.counterpart, t') = _
  rw [hcontext]
  exact congrArg (·, t') (Registry.composed_exchanged _ p)

/-! ### The gate -/

section
variable {t : Recorded C ω}

/-- One look is all, behind the open gate. -/
lemma run_gate_of_ready (hready : t.lifecycle.ready = true) (mode : RunMode) (d : RunDescriptor)
    (es : List (StageExchange C)) : ∃ e, e.acts = false ∧
      ((b.stage.transcribed.gate mode d).run es).run t = (((), es ++ [e]), t) := by
  cases mode with
  | sync =>
    have hlook : ((b.stage.transcribed.isReady).run es).run t =
        ((true, es ++ [⟨.isReady, true⟩]), t) := hready ▸ rfl
    refine ⟨⟨.isReady, true⟩, rfl, ?_⟩
    show ((b.stage.transcribed.ensureReady d).run es).run t = _
    rw [Stage.ensureReady, StateT.run_bind, run_bind_of_run hlook]
    rfl
  | async =>
    have hget : ((b.stage.transcribed.get).run es).run t =
        ((t.lifecycle, es ++ [⟨.get, t.lifecycle⟩]), t) := rfl
    refine ⟨⟨.get, t.lifecycle⟩, rfl, ?_⟩
    show ((b.stage.transcribed.ensureReadyAsync d).run es).run t = _
    rw [Stage.ensureReadyAsync, StateT.run_bind, run_bind_of_run hget]
    simp only [hready]
    rfl

lemma run_ensureReady_of_not_ready (hready : t.lifecycle.ready = false) (d : RunDescriptor)
    (es : List (StageExchange C)) : ((b.stage.transcribed.ensureReady d).run es).run t =
      ((b.stage.transcribed.ensureReadyAsync d).run (es ++ [⟨.isReady, false⟩])).run t := by
  have hlook : ((b.stage.transcribed.isReady).run es).run t =
      ((false, es ++ [⟨.isReady, false⟩]), t) := hready ▸ rfl
  rw [Stage.ensureReady, StateT.run_bind, run_bind_of_run hlook]
  rfl

end

section
variable (h : Counterpart b b')
include h

lemma agrees_invoke (hp : p.Of mode) (c : C) : Agrees mode id (b.stage.transcribed.invoke p d c)
    (b'.stage.transcribed.invoke p.counterpart d.counterpart c) := by
  refine .noted fun t t' hlifecycle hcontext => ?_
  obtain ⟨l, x, trace⟩ := t
  obtain ⟨l', x', trace'⟩ := t'
  obtain rfl : l' = l := hlifecycle
  obtain rfl : x' = exchanged x := hcontext
  exact ⟨_, _, _, run_invoke rfl trace, run_invoke (h.call p d c l' x) trace', .invoke hp d c _,
    rfl, rfl⟩

lemma agrees_execute (code : String) : Agrees mode id (b.stage.transcribed.execute mode code)
    (b'.stage.transcribed.execute mode.other code) := by
  refine .noted fun t t' hlifecycle hcontext => ?_
  obtain ⟨l, x, trace⟩ := t
  obtain ⟨l', x', trace'⟩ := t'
  obtain rfl : l' = l := hlifecycle
  obtain rfl : x' = exchanged x := hcontext
  cases hbound : b.interpreter with
  | none =>
    exact ⟨_, _, _, run_execute_unbound hbound code _,
      run_execute_unbound (h.unbound hbound) code _, .execute code _, rfl, rfl⟩
  | some execute =>
    obtain ⟨execute', hbound', hexecute⟩ := h.bound execute hbound
    exact ⟨_, _, _, run_execute_bound hbound rfl trace,
      run_execute_bound hbound' (hexecute mode code x) trace', .execute code _, rfl, rfl⟩

lemma agrees_callAll (hp : p.Of mode) (cs : List C) :
    Agrees mode id (b.stage.transcribed.callAll p d cs)
      (b'.stage.transcribed.callAll p.counterpart d.counterpart cs) := by
  induction cs with
  | nil => exact .pure rfl
  | cons c rest ih =>
    refine .bind (agrees_invoke h hp c) fun outcome => ?_
    have hname : b'.stage.transcribed.callbackName c = b.stage.transcribed.callbackName c :=
      congrFun h.callbackName c
    rw [hname, id]
    have hcomplaint (text text' : String)
        (htext : Stage.complaint p (b.stage.transcribed.callbackName c) outcome = some text)
        (htext' : Stage.complaint p.counterpart (b.stage.transcribed.callbackName c) outcome =
          some text') :
        Agrees mode id (b.stage.transcribed.notify text) (b'.stage.transcribed.notify text') :=
      agrees_complaint hp htext htext'
    cases outcome with
    | done => exact ih
    | failed _ | panicked =>
      exact .bind (hcomplaint _ _ rfl rfl) fun _ => .bind ih fun _ => .pure rfl

lemma agrees_fire (hp : p.Of mode) : Agrees mode id (b.stage.transcribed.fire p d)
    (b'.stage.transcribed.fire p.counterpart d.counterpart) :=
  .bind (agrees_callbacks hp) fun cs => agrees_callAll h hp cs

lemma agrees_ensureReadyAsync : Agrees mode id (b.stage.transcribed.ensureReadyAsync d)
    (b'.stage.transcribed.ensureReadyAsync d.counterpart) := by
  refine .bind agrees_get fun l => ?_
  rw [id]
  split
  · exact .bind (agrees_fire h (.inl rfl)) fun _ => agrees_modify _
  · exact .pure rfl

/-- Who blocks has only looked once more, or instead. -/
lemma agrees_gate : Agrees mode id (b.stage.transcribed.gate mode d)
    (b'.stage.transcribed.gate mode.other d.counterpart) := by
  intro es es' t t' hsimilar
  have hready : t'.lifecycle.ready = t.lifecycle.ready := congrArg _ hsimilar.lifecycle
  cases hopen : t.lifecycle.ready with
  | true =>
    rw [hopen] at hready
    obtain ⟨e, he, hgate⟩ := run_gate_of_ready (b := b) hopen mode d es
    obtain ⟨e', he', hgate'⟩ := run_gate_of_ready (b := b') hready mode.other d.counterpart es'
    rw [hgate, hgate']
    exact ⟨rfl, (hsimilar.look he).look_other he'⟩
  | false =>
    rw [hopen] at hready
    have hlook : StageExchange.acts (⟨.isReady, false⟩ : StageExchange C) = false := rfl
    cases mode with
    | sync =>
      have hgate := run_ensureReady_of_not_ready (b := b) hopen d es
      have hrest := agrees_ensureReadyAsync (d := d) h _ _ _ _ (hsimilar.look hlook)
      rwa [← hgate] at hrest
    | async =>
      have hgate := run_ensureReady_of_not_ready (b := b') hready d.counterpart es'
      have hrest := agrees_ensureReadyAsync (d := d) h _ _ _ _ (hsimilar.look_other hlook)
      rwa [← hgate] at hrest

lemma agrees_executeCode (hp : p.Of mode) :
    Agrees mode (Except.mapError RunError.counterpart) (b.stage.transcribed.executeCode mode p)
      (b'.stage.transcribed.executeCode mode.other p.counterpart) := by
  rw [Stage.executeCode_eq, Stage.executeCode_eq]
  refine .bind (agrees_code hp) fun code => ?_
  rw [id]
  split
  · exact .pure rfl
  · refine .bind (agrees_execute h code) fun outcome => ?_
    match outcome with
    | none | some (.ok _) => exact .pure rfl
    | some (.error e) => exact .bind (agrees_failure (.hookCode p e)) fun _ => .pure rfl

lemma agrees_beforeRun :
    Agrees mode (Except.mapError RunError.counterpart) (b.stage.transcribed.beforeRun mode d)
      (b'.stage.transcribed.beforeRun mode.other d.counterpart) := by
  rw [Stage.beforeRun_eq, Stage.beforeRun_eq, mode.phases_other]
  refine .bind (agrees_gate h) fun _ => .bind (agrees_modify _) fun _ =>
    .bind (agrees_executeCode h mode.of_phases.codeBefore) fun result => ?_
  cases result with
  | error e => exact .bind (agrees_modify _) fun _ => .pure rfl
  | ok _ =>
    exact .bind (agrees_fire h mode.of_phases.before) fun _ => .bind (agrees_modify _) fun _ =>
      .pure rfl

lemma agrees_afterPhases :
    Agrees mode (Except.mapError RunError.counterpart) (b.stage.transcribed.afterPhases mode d)
      (b'.stage.transcribed.afterPhases mode.other d.counterpart) := by
  rw [Stage.afterPhases_eq, Stage.afterPhases_eq, mode.phases_other]
  refine .bind agrees_get fun l => ?_
  rw [id]
  cases l.order with
  | callbacksFirst =>
    exact .bind (agrees_fire h mode.of_phases.after) fun _ =>
      agrees_executeCode h mode.of_phases.codeAfter
  | codeFirst =>
    exact .bind (agrees_executeCode h mode.of_phases.codeAfter) fun _ =>
      .bind (agrees_fire h mode.of_phases.after) fun _ => .pure rfl

lemma agrees_afterRun (outcome : Except RunError Value) :
    Agrees mode (Except.mapError RunError.counterpart)
      (b.stage.transcribed.afterRun mode d outcome)
      (b'.stage.transcribed.afterRun mode.other d.counterpart
        (outcome.mapError RunError.counterpart)) := by
  rw [Stage.afterRun_eq, Stage.afterRun_eq]
  refine .bind (agrees_modify _) fun _ => .bind (agrees_afterPhases h) fun code =>
    .bind (agrees_modify _) fun _ => .pure ?_
  cases outcome <;> cases code <;> rfl

omit h in
lemma agrees_reportFailure (outcome : Except RunError Value) :
    Agrees mode id (b.stage.transcribed.reportFailure outcome)
      (b'.stage.transcribed.reportFailure (outcome.mapError RunError.counterpart)) := by
  match outcome with
  | .ok _ | .error (.remote _) => exact .pure rfl
  | .error (.hookCode _ _) | .error (.execution _) | .error (.transport _) =>
    exact agrees_failure _

lemma agrees_executeUser (code : String) :
    Agrees mode (Except.mapError RunError.counterpart)
      (b.stage.transcribed.executeUser mode code)
      (b'.stage.transcribed.executeUser mode.other code) := by
  refine .bind (agrees_execute h code) fun outcome => ?_
  match outcome with
  | none | some (.ok _) | some (.error _) => exact .pure rfl

lemma agrees_run (code : String) :
    Agrees mode (Except.mapError RunError.counterpart) (b.stage.transcribed.run mode d code)
      (b'.stage.transcribed.run mode.other d.counterpart code) := by
  rw [Stage.run_eq, Stage.around_eq, Stage.run_eq, Stage.around_eq]
  refine .bind (agrees_beforeRun h) fun result => ?_
  cases result with
  | error e => exact .pure rfl
  | ok _ =>
    exact .bind (agrees_executeUser h code) fun outcome =>
      .bind (agrees_reportFailure outcome) fun _ => agrees_afterRun h outcome

end
end

/-! ## Partners -/

/-- The surroundings in which callbacks and code do with the phases of one mode what they do in `b`
with those of the other one. -/
def renamed (b : Behaviour C ω) : Behaviour C ω where
  callbackName := b.callbackName
  call p d c l x :=
    let after := b.call p.counterpart d.counterpart c l (exchanged x)
    (after.1, exchanged after.2)
  interpreter := b.interpreter.map fun execute mode code x =>
    let after := execute mode.other code (exchanged x)
    (after.1, exchanged after.2)

lemma exchanged_exchanged (x : Registry C × ω) : exchanged (exchanged x) = x :=
  congrArg (·, x.2) x.1.exchanged_exchanged

/-- Whatever callbacks and code do, there are such surroundings. -/
theorem counterpart_renamed (b : Behaviour C ω) : Counterpart b b.renamed where
  callbackName := rfl
  call p d c l x := by
    simp only [renamed, Phase.counterpart_counterpart, RunDescriptor.counterpart_counterpart,
      exchanged_exchanged]
  unbound hbound := by rw [renamed, hbound, Option.map_none]
  bound execute hbound := by
    refine ⟨_, by rw [renamed, hbound, Option.map_some], fun mode code x => ?_⟩
    simp only [RunMode.other_other, exchanged_exchanged]

/-! ## The comparison -/

/-- A run with its result and its end, and the transcript of what it asks and is answered. -/
structure Transcript (b : Behaviour C ω) (mode : RunMode) (d : RunDescriptor) (code : String)
    (s : Recorded C ω) (es : List (StageExchange C)) (result : Except RunError Value)
    (t : Recorded C ω) : Prop where
  run : (b.stage.run mode d code).run s = (result, t)
  transcript : ((b.stage.transcribed.run mode d code).run []).run s = ((result, es), t)

lemma exists_transcript (b : Behaviour C ω) (mode : RunMode) (d : RunDescriptor) (code : String)
    (s : Recorded C ω) : ∃ es result t, b.Transcript mode d code s es result t := by
  refine ⟨_, _, _, ?_, rfl⟩
  rw [← b.stage.transcribed_run mode d code []]
  rfl

/-- All that a run asks is about phases of its mode, all the code that it executes is the user's or
that of such a phase, and it is executed in this mode. -/
structure Confined (mode : RunMode) (code : String) (es : List (StageExchange C)) : Prop where
  within : ∀ e ∈ es, e.1.Within mode
  sourced : Stage.Sourced code es

lemma Transcript.sourced {b : Behaviour C ω} {mode : RunMode} {d : RunDescriptor} {code : String}
    {s t : Recorded C ω} {es : List (StageExchange C)} {result : Except RunError Value}
    (h : b.Transcript mode d code s es result t) : Stage.Sourced code es := by
  have hsourced : Stage.Sourced code (((b.stage.transcribed.run mode d code).run []).run s).1.2 :=
    Stage.sourced_run mode d s
  rwa [h.transcript] at hsourced

/-- A run of either mode does with a registry what a run of the other mode does with the registry in
which the phases of the modes are exchanged. Looks at the lifecycle apart, they ask the same in the
same order, but for the names of the phases, are answered the same, leave the same behind, and have
the same result. Neither has to do with the phases of the other's mode. -/
theorem run_counterpart {b b' : Behaviour C ω} (h : Counterpart b b') (mode : RunMode)
    (d : RunDescriptor) (code : String) (l : Lifecycle) (x : Registry C × ω) :
    ∃ es es' result t t', b.Transcript mode d code ⟨l, x, []⟩ es result t ∧
      b'.Transcript mode.other d.counterpart code ⟨l, exchanged x, []⟩ es'
        (result.mapError RunError.counterpart) t' ∧
      Similar mode es es' t t' ∧ Confined mode code es ∧ Confined mode.other code es' := by
  obtain ⟨es, result, t, hrun⟩ := b.exists_transcript mode d code ⟨l, x, []⟩
  obtain ⟨es', result', t', hrun'⟩ :=
    b'.exists_transcript mode.other d.counterpart code ⟨l, exchanged x, []⟩
  obtain ⟨hresult, hsimilar⟩ := agrees_run h code [] [] ⟨l, x, []⟩ ⟨l, exchanged x, []⟩
    ⟨.nil, rfl, rfl⟩
  rw [hrun.transcript, hrun'.transcript] at hresult hsimilar
  obtain rfl : result' = _ := hresult
  exact ⟨es, es', result, t, t', hrun, hrun', hsimilar,
    ⟨hsimilar.within, hrun.sourced⟩, ⟨hsimilar.within_other, hrun'.sourced⟩⟩

/-- Surroundings in which callbacks for `onReady` fail, and all code but the first. -/
def faulty : Behaviour String ℕ where
  callbackName := id
  call
    | .onReady, _, c, _, x => (.failed c, x)
    | _, _, _, _, x => (.done, x)
  interpreter := some fun _ _ x =>
    (if x.2 = 0 then .ok .null else .error ⟨"E", "x"⟩, (x.1, x.2 + 1))

/-- A registry with a callback for all runs, and callbacks and code around those of one mode. -/
def lopsided : Registry String where
  role := .worker
  policy := .reject
  callbacks := ⟨[(.onReady, ⟨["greet"]⟩), (.onBeforeRun, ⟨["begin"]⟩), (.onAfterRun, ⟨["end"]⟩)]⟩
  code := ⟨[(.codeBeforeRun, ⟨["setup"]⟩), (.codeAfterRun, ⟨["cleanup"]⟩)]⟩
  shipped := .empty

/-- What a run with these phases shows. -/
def faultyTrace (phases : RunPhases) : List (RunEvent String) :=
  [.called .onReady "greet" (.failed "greet"),
    .notified "onReady callback 'greet' failed: greet",
    .executed (compose ["setup"]) (.ok .null), .called phases.before "begin" .done,
    .executed "work" (.error ⟨"E", "x"⟩), .notified "E: x",
    .executed (compose ["cleanup"]) (.error ⟨"E", "x"⟩),
    .notified (RunError.hookCode phases.codeAfter ⟨"E", "x"⟩).message,
    .called phases.after "end" .done]

/-- Both runs complain of the callback, go on to the user's code, which fails, and through both
phases after it. The one that blocks looks at the lifecycle once more. -/
theorem run_counterpart_failing : faulty.Counterpart faulty ∧ ∃ es es' t t',
    faulty.Transcript .sync ⟨1, "", .sync⟩ "work" ⟨.new .codeFirst, (lopsided, 0), []⟩ es
      (.error (.execution ⟨"E", "x"⟩)) t ∧
    faulty.Transcript .async ⟨1, "", .async⟩ "work"
      ⟨.new .codeFirst, (lopsided.exchanged, 0), []⟩ es' (.error (.execution ⟨"E", "x"⟩)) t' ∧
    Similar .sync es es' t t' ∧ es.length = 22 ∧ es'.length = 21 ∧
    t.trace = faultyTrace .sync ∧ t'.trace = faultyTrace .async := by
  have hself : faulty.Counterpart faulty := by
    refine ⟨rfl, fun p _ _ _ _ => by cases p <;> rfl, nofun, fun _ hbound => ?_⟩
    obtain rfl := Option.some.inj hbound
    exact ⟨_, rfl, fun _ _ _ => rfl⟩
  obtain ⟨es, es', result, t, t', hrun, hrun', hsimilar, -, -⟩ :=
    run_counterpart hself .sync ⟨1, "", .sync⟩ "work" (.new .codeFirst) (lopsided, 0)
  have hresult : result = .error (.execution ⟨"E", "x"⟩) :=
    congrArg (fun p => p.1.1) hrun.transcript.symm
  have hlength : es.length = 22 := congrArg (fun p => p.1.2.length) hrun.transcript.symm
  have hlength' : es'.length = 21 := congrArg (fun p => p.1.2.length) hrun'.transcript.symm
  have htrace : t.trace = faultyTrace .sync := congrArg (fun p => p.2.trace) hrun.transcript.symm
  have htrace' : t'.trace = faultyTrace .async :=
    congrArg (fun p => p.2.trace) hrun'.transcript.symm
  subst hresult
  exact ⟨hself, es, es', t, t', hrun, hrun', hsimilar, hlength, hlength', htrace, htrace'⟩

end Behaviour
end WorkerHost
