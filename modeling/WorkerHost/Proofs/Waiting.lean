import WorkerHost.Proofs.Task

/-!
# What is so while a computation waits

Others look at a state while a computation on it waits, so what is seen of it then matters as much
as what is seen in the end. `Step.Maintains` says both, if others leave alone what is seen.
Computations that show no change at any time are related by `Task.calm`.
-/

namespace WorkerHost
namespace Step
variable {σ Q α β V : Type} {R : Q → Type} {view : σ → V} {during during' : V → Prop}
  {post post' : V → α → Prop}

/-- Whenever the computation waits, and when it ends, what is seen of the state is as it should be,
if others do not change it meanwhile. -/
def Maintains (view : σ → V) (during : V → Prop) (post : V → α → Prop) : Step σ Q R α → Prop
  | .done a s => post (view s) a
  | .ask _ s resume => during (view s) ∧
      ∀ r s', view s' = view s → (resume r s').Maintains view during post

lemma Maintains.mono {x : Step σ Q R α} (h : x.Maintains view during post)
    (hduring : ∀ v, during v → during' v) (hpost : ∀ v a, post v a → post' v a) :
    x.Maintains view during' post' := by
  induction x with
  | done a s => exact hpost _ a h
  | ask q s resume ih => exact ⟨hduring _ h.1, fun r s' hs => ih r s' (h.2 r s' hs)⟩

lemma Maintains.bind {post' : V → β → Prop} {x : Step σ Q R α} {f : α → σ → Step σ Q R β}
    (hx : x.Maintains view during post)
    (hf : ∀ a s, post (view s) a → (f a s).Maintains view during post') :
    (x.bind f).Maintains view during post' := by
  induction x with
  | done a s => exact hf a s hx
  | ask q s resume ih => exact ⟨hx.1, fun r s' hs => ih r s' (hx.2 r s' hs)⟩

end Step

namespace Task
variable {σ Q α β V : Type} {R : Q → Type} {view : σ → V} {pre during : V → Prop}
  {post : V → α → Prop}

/-- The computation maintains what it should, if it begins where it should. -/
structure Maintains (view : σ → V) (pre during : V → Prop) (post : V → α → Prop)
    (x : Task σ Q R α) : Prop where
  steps (s : σ) (hs : pre (view s)) : (x s).Maintains view during post

namespace Maintains

lemma pure {a : α} (h : ∀ v, pre v → post v a) :
    (Pure.pure a : Task σ Q R α).Maintains view pre during post :=
  ⟨fun _ hs => h _ hs⟩

lemma bind {post' : V → β → Prop} {x : Task σ Q R α} {f : α → Task σ Q R β}
    (hx : x.Maintains view pre during post)
    (hf : ∀ a, (f a).Maintains view (post · a) during post') :
    (x >>= f).Maintains view pre during post' :=
  ⟨fun s hs => (hx.steps s hs).bind fun a s' hs' => (hf a).steps s' hs'⟩

/-- A computation that asks nothing. -/
lemma of_done {x : Task σ Q R α}
    (h : ∀ s, pre (view s) → ∃ a s', x s = .done a s' ∧ post (view s') a) :
    x.Maintains view pre during post := by
  refine ⟨fun s hs => ?_⟩
  obtain ⟨a, s', hdone, hpost⟩ := h s hs
  rw [hdone]
  exact hpost

/-- A computation that asks nothing and shows no change. -/
lemma of_unchanged {x : Task σ Q R α} (h : ∀ s, ∃ a s', x s = .done a s' ∧ view s' = view s) :
    x.Maintains view pre during fun v _ => pre v := by
  refine of_done fun s hs => ?_
  obtain ⟨a, s', hdone, hview⟩ := h s
  exact ⟨a, s', hdone, hview ▸ hs⟩

lemma weaken {pre' : V → Prop} {x : Task σ Q R α} (hx : x.Maintains view pre during post)
    (hpre : ∀ v, pre' v → pre v) : x.Maintains view pre' during post :=
  ⟨fun s hs => hx.steps s (hpre _ hs)⟩

end Maintains

/-- A computation that shows no change, neither while it waits nor when it ends. -/
def Calm (view : σ → V) (x : Task σ Q R α) : Prop :=
  ∀ v, x.Maintains view (· = v) (· = v) fun u _ => u = v

namespace Calm

lemma pure (a : α) : (Pure.pure a : Task σ Q R α).Calm view :=
  fun _ => .pure fun _ h => h

lemma bind {x : Task σ Q R α} {f : α → Task σ Q R β} (hx : x.Calm view)
    (hf : ∀ a, (f a).Calm view) : (x >>= f).Calm view :=
  fun v => (hx v).bind fun a => hf a v

/-- What shows no change maintains whatever it finds. -/
lemma maintains {x : Task σ Q R α} (h : x.Calm view) (hduring : ∀ v, pre v → during v) :
    x.Maintains view pre during fun v _ => pre v :=
  ⟨fun s hs => ((h _).steps s rfl).mono (fun _ hv => hv ▸ hduring _ hs) fun _ _ hv => hv ▸ hs⟩

end Calm

/-- That a computation shows no change, as a relation. -/
def calm (view : σ → V) : MonadRel (Task σ Q R) (Task σ Q R) where
  rel x _ := x.Calm view
  pure := .pure
  bind := .bind

lemma calm_of_done {x : Task σ Q R α} (h : ∀ s, ∃ a s', x s = .done a s' ∧ view s' = view s) :
    x.Calm view := by
  refine fun v => .of_done fun s hs => ?_
  obtain ⟨a, s', hdone, hview⟩ := h s
  exact ⟨a, s', hdone, hview.trans hs⟩

lemma calm_ask (q : Q) : (Task.ask (R := R) q).Calm view :=
  fun _ => ⟨fun _ hs => ⟨hs, fun _ _ hs' => hs'.trans hs⟩⟩

end Task
end WorkerHost
