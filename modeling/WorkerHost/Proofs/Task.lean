import Mathlib.Tactic.Common
import WorkerHost.Task

/-!
# Courses of computations

A computation that stops to ask takes one of many courses: it depends on the answers, and on what
others do to the state while it waits. `Step.Course` says which courses there are.

`MonadRel` is a relation between computations of two kinds that respects how they are put together.
What is related part by part is then related as a whole.
-/

namespace WorkerHost

/-! ## Courses -/

namespace Step
variable {σ Q α β : Type} {R : Q → Type} {between : σ → σ → Prop}

/-- The course that a computation takes: its questions with their answers, its result, and the state
at its end. While it waits for an answer others may change the state, as `between` allows. -/
inductive Course (between : σ → σ → Prop) :
    Step σ Q R α → List ((q : Q) × R q) → α → σ → Prop
  | done (a : α) (s : σ) : Course between (.done a s) [] a s
  | ask {q : Q} {s s₁ s₂ : σ} {resume : R q → σ → Step σ Q R α} {log : List ((q : Q) × R q)} {a : α}
      (r : R q) (hbetween : between s s₁) (hrest : Course between (resume r s₁) log a s₂) :
      Course between (.ask q s resume) (⟨q, r⟩ :: log) a s₂

lemma bind_done (x : Step σ Q R α) : (x.bind fun a s => .done a s) = x := by
  induction x with
  | done a s => rfl
  | ask q s resume ih =>
    show Step.ask q s _ = Step.ask q s _
    congr 1
    funext r s
    exact ih r s

lemma bind_assoc {γ : Type} (x : Step σ Q R α) (f : α → σ → Step σ Q R β)
    (g : β → σ → Step σ Q R γ) : (x.bind f).bind g = x.bind fun a s => (f a s).bind g := by
  induction x with
  | done a s => rfl
  | ask q s resume ih =>
    show Step.ask q s _ = Step.ask q s _
    congr 1
    funext r s
    exact ih r s

lemma course_done {a b : α} {s s' : σ} {log : List ((q : Q) × R q)} :
    Course between (.done a s) log b s' ↔ log = [] ∧ b = a ∧ s' = s := by
  constructor
  · rintro ⟨⟩
    exact ⟨rfl, rfl, rfl⟩
  · rintro ⟨rfl, rfl, rfl⟩
    exact .done _ _

/-- A computation that asks goes on with some answer, from what others have made of the state. -/
lemma course_ask {q : Q} {s s' : σ} {resume : R q → σ → Step σ Q R α} {log : List ((q : Q) × R q)}
    {a : α} : Course between (.ask q s resume) log a s' ↔ ∃ r s₁ rest,
      log = ⟨q, r⟩ :: rest ∧ between s s₁ ∧ Course between (resume r s₁) rest a s' := by
  constructor
  · rintro ⟨⟩
    exact ⟨_, _, _, rfl, ‹_›, ‹_›⟩
  · rintro ⟨r, s₁, rest, rfl, hbetween, hrest⟩
    exact .ask r hbetween hrest

/-- A computation goes on from where its first part ends. -/
lemma course_bind {x : Step σ Q R α} {f : α → σ → Step σ Q R β} {log : List ((q : Q) × R q)}
    {b : β} {s' : σ} : Course between (x.bind f) log b s' ↔ ∃ first a s rest,
      log = first ++ rest ∧ Course between x first a s ∧ Course between (f a s) rest b s' := by
  constructor
  · intro h
    induction x generalizing log with
    | done a s => exact ⟨[], a, s, log, rfl, .done a s, h⟩
    | ask q s resume ih =>
      cases h with
      | ask r hbetween hrest =>
        obtain ⟨first, a, s', rest, rfl, hx, hf⟩ := ih _ _ hrest
        exact ⟨⟨q, r⟩ :: first, a, s', rest, rfl, .ask r hbetween hx, hf⟩
  · rintro ⟨first, a, s, rest, rfl, hx, hf⟩
    induction hx with
    | done a s => exact hf
    | ask r hbetween hrest ih => exact .ask r hbetween (ih hf)

end Step

namespace Task
variable {σ Q : Type} {R : Q → Type}

instance : LawfulMonad (Task σ Q R) :=
  .mk' _
    (fun x => funext fun s => Step.bind_done (x s))
    (fun _ _ => rfl)
    (fun x f g => funext fun s => Step.bind_assoc (x s) f fun b s => g b s)

/-- A computation that begins by asking nothing. -/
lemma bind_of_done {α β : Type} {x : Task σ Q R α} {s s' : σ} {a : α} (h : x s = .done a s')
    (f : α → Task σ Q R β) : (x >>= f) s = f a s' := by
  show (x s).bind _ = _
  rw [h]
  rfl

end Task

/-! ## Relations between computations -/

/-- A relation between computations of two kinds that respects how they are put together. -/
structure MonadRel (m n : Type → Type) [Monad m] [Monad n] where
  rel : {α : Type} → m α → n α → Prop
  pure {α : Type} (a : α) : rel (Pure.pure a : m α) (Pure.pure a)
  bind {α β : Type} {x : m α} {y : n α} {f : α → m β} {g : α → n β} (hx : rel x y)
    (hf : ∀ a, rel (f a) (g a)) : rel (x >>= f) (y >>= g)

namespace Task
variable {σ Q V α : Type} {R : Q → Type} {between : σ → σ → Prop} {view : σ → V}

/-- A computation leaves what is seen of the state as it is, if others do so while it waits. -/
def Keeps (between : σ → σ → Prop) (view : σ → V) (x : Task σ Q R α) : Prop :=
  ∀ s log a s', (x s).Course between log a s' → view s' = view s

namespace Keeps

lemma pure (a : α) : (Pure.pure a : Task σ Q R α).Keeps between view := by
  intro s log b s' h
  obtain ⟨-, -, rfl⟩ := Step.course_done.1 h
  rfl

/-- What is kept by parts is kept by the whole. -/
lemma bind {β : Type} {x : Task σ Q R α} {f : α → Task σ Q R β} (hx : x.Keeps between view)
    (hf : ∀ a, (f a).Keeps between view) : (x >>= f).Keeps between view := by
  intro s log b s' h
  obtain ⟨first, a, s₁, rest, -, hfirst, hrest⟩ := Step.course_bind.1 h
  exact (hf a s₁ rest b s' hrest).trans (hx s first a s₁ hfirst)

end Keeps

/-- That a computation keeps something, as a relation. -/
def keeps (between : σ → σ → Prop) (view : σ → V) : MonadRel (Task σ Q R) (Task σ Q R) where
  rel x _ := x.Keeps between view
  pure := .pure
  bind := .bind

lemma keeps_ask (hbetween : ∀ s s', between s s' → view s' = view s) (q : Q) :
    (Task.ask (R := R) q).Keeps between view := by
  intro s log r s' h
  cases h with
  | ask r h hrest =>
    obtain ⟨-, -, rfl⟩ := Step.course_done.1 hrest
    exact hbetween _ _ h

/-- A computation that asks nothing. -/
lemma keeps_of_done {x : Task σ Q R α} (h : ∀ s, ∃ a s', x s = .done a s' ∧ view s' = view s) :
    x.Keeps between view := by
  intro s log a s' hcourse
  obtain ⟨b, t, hx, hview⟩ := h s
  rw [hx] at hcourse
  obtain ⟨-, -, rfl⟩ := Step.course_done.1 hcourse
  exact hview

end Task
end WorkerHost
