import WorkerHost.Lifecycle.Local
import WorkerHost.Proofs.Lifecycle.Lockstep
import WorkerHost.Proofs.Lifecycle.Run

/-!
# Runs of local contexts

The callbacks and the shell of a local context behave in one of the ways that `Behaviour` leaves
open: `LocalContext.behaviour` is that way. Its stage records events where the stage of the context
only keeps the texts shown to the user, so the context is a view of the recorded state, and every
operation of the one stage does to the view what the other does to the state. What is said of traces
holds of local contexts through this view.

* `LocalContext.lockstep`: the stage of a local context is in lockstep with that of its behaviour;
* `LocalContext.exists_runTrace`: a run of a local context has a trace, shows the notifications of
  this trace to the user, and ends with its result.
-/

namespace WorkerHost

/-! ## Stages seen through a view -/

/-- The computation `x` does to the view of a state what `y` does to the state. -/
def Simulates {σ τ α : Type} (view : τ → σ) (x : StateM σ α) (y : StateM τ α) : Prop :=
  ∀ t, x.run (view t) = ((y.run t).1, view (y.run t).2)

/-- Seen through a view, as a relation. -/
def simulates {σ τ : Type} (view : τ → σ) : MonadRel (StateM σ) (StateM τ) where
  rel := Simulates view
  pure _ _ := rfl
  bind {_ _ x y f g} hx hf t := by
    rw [run_bind_of_run (hx t), hf]
    rfl

/-! ## Callbacks of a local context -/

namespace LocalContext

/-- A computation neither reads nor changes the notes of a context, and leaves its lifecycle alone.
-/
def Frames {α : Type} (x : StateM LocalContext α) : Prop :=
  ∀ c notes, x.run { c with notes := notes } =
    ((x.run c).1, { (x.run c).2 with lifecycle := c.lifecycle, notes := notes })

namespace Frames
variable {α β : Type}

lemma pure (a : α) : Frames (Pure.pure a) := fun _ _ => rfl

lemma lifecycle_eq {x : StateM LocalContext α} (hx : Frames x) (c : LocalContext) :
    (x.run c).2.lifecycle = c.lifecycle :=
  congrArg (fun p => p.2.lifecycle) (hx c c.notes)

lemma bind {x : StateM LocalContext α} {f : α → StateM LocalContext β} (hx : Frames x)
    (hf : ∀ a, Frames (f a)) : Frames (x >>= f) := by
  intro c notes
  have hrun : (x >>= f).run c = (f (x.run c).1).run (x.run c).2 := rfl
  -- the second part starts with the other notes and, as the first leaves it alone, the lifecycle
  rw [run_bind_of_run (hx c notes), hrun, ← hx.lifecycle_eq c, hf]

end Frames

/-- That a computation leaves the notes and the lifecycle alone, as a relation. -/
def frames : MonadRel (StateM LocalContext) (StateM LocalContext) where
  rel x _ := Frames x
  pure := .pure
  bind := .bind

lemma run_inShell {α : Type} (x : StateM LocalShell α) (c : LocalContext) :
    (inShell x).run c = ((x.run c.shell).1, { c with shell := (x.run c.shell).2 }) := rfl

lemma run_execute (code : String) (c : LocalContext) : (execute true code).run c =
    (some ((LocalShell.run code).run c.shell).1,
      { c with shell := ((LocalShell.run code).run c.shell).2 }) := by
  unfold execute
  rw [if_pos rfl, run_bind_of_run (run_inShell _ c)]
  rfl

lemma frames_execute (bound : Bool) (code : String) : Frames (execute bound code) := by
  intro c notes
  cases bound with
  | false => rfl
  | true => simp only [run_execute]

lemma frames_scope (bound : Bool) (c : LocalContext) :
    (scope bound c).Lockstep frames (scope bound c) where
  role := rfl
  config := rfl
  hasWorker := rfl
  log _ := fun _ _ => rfl
  display _ := fun _ _ => rfl
  field? _ _ := fun _ _ => rfl
  interpreter? := fun _ _ => rfl
  execute := frames_execute bound
  stateText? _ := fun _ _ => rfl
  change _ _ _ _ _ := fun _ _ => rfl

/-- A callback of a local context leaves the notes and the lifecycle alone. -/
lemma frames_invoke (bound : Bool) (phase : Phase) (run : RunDescriptor) (c : Callback) :
    Frames ((stage bound).invoke phase run c) :=
  fun ctx notes => (frames_scope bound ctx).invoke phase ctx notes

/-! ## The behaviour of a local context -/

/-- What a local context holds beside its registry, its lifecycle and its notes. -/
structure World where
  shell : LocalShell
  mentions : Mentions
  config : Value
  log : List String

def world (c : LocalContext) : World := ⟨c.shell, c.mentions, c.config, c.log⟩

/-- The context of a world. -/
def World.context (w : World) (registry : Registry Callback) (l : Lifecycle) (notes : List String) :
    LocalContext :=
  ⟨w.shell, registry, w.mentions, l, w.config, w.log, notes⟩

/-- How the callbacks and the shell of a local context behave. -/
def behaviour (bound : Bool) : Behaviour Callback World where
  callbackName := Callback.name
  call phase run c l x :=
    let after := ((stage bound).invoke phase run c).run (x.2.context x.1 l [])
    (after.1, after.2.registry, after.2.world)
  interpreter :=
    if bound then
      some fun _ code x =>
        let after := (LocalShell.run code).run x.2.shell
        (after.1, x.1, { x.2 with shell := after.2 })
    else none

/-- The text that an event shows to the user. -/
def noteOf : RunEvent Callback → Option String
  | .notified text => some text
  | _ => none

/-- The context of a recorded state, with some notes from before. -/
def ofRecorded (notes : List String) (t : Recorded Callback World) : LocalContext :=
  t.context.2.context t.context.1 t.lifecycle (notes ++ t.trace.filterMap noteOf)

section
variable (notes : List String) (l : Lifecycle) (x : Registry Callback × World)
  (trace : List (RunEvent Callback))

/-- An event that shows nothing to the user leaves the context as it is. -/
lemma ofRecorded_append_of_none {e : RunEvent Callback} (he : noteOf e = none) :
    ofRecorded notes ⟨l, x, trace ++ [e]⟩ = ofRecorded notes ⟨l, x, trace⟩ := by
  simp [ofRecorded, he]

lemma ofRecorded_append_notified (text : String) :
    ofRecorded notes ⟨l, x, trace ++ [.notified text]⟩ =
      { ofRecorded notes ⟨l, x, trace⟩ with
        notes := (ofRecorded notes ⟨l, x, trace⟩).notes ++ [text] } := by
  simp [ofRecorded, World.context, noteOf]

end

/-- The stage of a local context is in lockstep with that of its behaviour. -/
theorem lockstep (bound : Bool) (notes : List String) :
    (stage bound).Lockstep (simulates (ofRecorded notes)) (behaviour bound).stage where
  get := fun _ => rfl
  isReady := fun _ => rfl
  modify _ := fun _ => rfl
  callbacks _ := fun _ => rfl
  code _ := fun _ => rfl
  callbackName := rfl
  invoke phase run c := by
    intro t
    let before := t.context.2.context t.context.1 t.lifecycle []
    let after := ((stage bound).invoke phase run c).run before
    -- the behaviour calls the callback in a context without notes, which makes no difference to it
    have hcall : (behaviour bound).call phase run c t.lifecycle t.context =
      (after.1, after.2.registry, after.2.world) := rfl
    rw [Behaviour.run_invoke hcall t.trace, ofRecorded_append_of_none _ _ _ _ rfl]
    exact frames_invoke bound phase run c before (notes ++ t.trace.filterMap noteOf)
  execute _ code := by
    intro t
    cases bound with
    | false => rfl
    | true =>
      rw [Behaviour.run_execute_bound rfl rfl t.trace, ofRecorded_append_of_none _ _ _ _ rfl]
      show (execute true code).run (ofRecorded notes t) = _
      rw [run_execute]
      rfl
  notify _ := by
    intro t
    rw [Behaviour.run_notify, ofRecorded_append_notified]
    rfl

/-- A run of a local context has a trace of its behaviour, shows the notifications of this trace to
the user, and ends with its result. -/
theorem exists_runTrace (bound : Bool) (mode : RunMode) (run : RunDescriptor) (code : String)
    (c : LocalContext) :
    ∃ es result x,
      (behaviour bound).RunTrace mode run code c.lifecycle (c.registry, c.world) es result x ∧
      ((stage bound).run mode run code).run c = (result,
        x.2.context x.1 (Behaviour.finished c.lifecycle run) (c.notes ++ es.filterMap noteOf)) := by
  obtain ⟨es, result, x, htrace⟩ :=
    (behaviour bound).exists_runTrace mode run code c.lifecycle (c.registry, c.world)
  have hview : ofRecorded c.notes ⟨c.lifecycle, (c.registry, c.world), []⟩ = c := by
    simp only [ofRecorded, List.filterMap_nil, List.append_nil]
    rfl
  have hrun := (lockstep bound c.notes).wholeRun mode run code
    ⟨c.lifecycle, (c.registry, c.world), []⟩
  rw [hview, htrace.run_eq] at hrun
  exact ⟨es, result, x, htrace, hrun⟩

end LocalContext
end WorkerHost
