import WorkerHost.Value.Heap
/-!
Computations that stop to ask. A `Task` works on a state and either ends with a result or asks its
surroundings a question and goes on with the answer, and with the state as it is by then. A task is
data: whoever runs it decides when to answer, and other tasks may change the state meanwhile.
-/

namespace WorkerHost

/-- How far a computation has come: it ended, or it waits for the answer to a question. -/
inductive Step (σ Q : Type) (R : Q → Type) (α : Type) : Type where
  | done (a : α) (s : σ)
  | ask (q : Q) (s : σ) (resume : R q → σ → Step σ Q R α)

namespace Step
variable {σ Q α β : Type} {R : Q → Type}

/-- Goes on with the result. -/
def bind (x : Step σ Q R α) (f : α → σ → Step σ Q R β) : Step σ Q R β :=
  match x with
  | done a s => f a s
  | ask q s resume => ask q s fun r s => (resume r s).bind f

end Step

/-- A computation over a state that may stop to ask. -/
def Task (σ Q : Type) (R : Q → Type) (α : Type) : Type :=
  σ → Step σ Q R α

namespace Task
variable {σ Q α β : Type} {R : Q → Type}

instance : Monad (Task σ Q R) where
  pure a := fun s => .done a s
  bind x f := fun s => (x s).bind f

instance : MonadStateOf σ (Task σ Q R) where
  get := fun s => .done s s
  set s := fun _ => .done () s
  modifyGet f := fun s => let (a, s) := f s; .done a s

/-- Stops to ask a question. -/
def ask (q : Q) : Task σ Q R (R q) :=
  fun s => .ask q s .done

end Task

/-- States that hold a heap. -/
class HasHeap (σ : Type) where
  heap : σ → Heap
  setHeap : Heap → σ → σ

instance : HasHeap Heap := ⟨id, fun h _ => h⟩

/-- Computations that can work on a heap. -/
class MonadHeap (m : Type → Type) where
  onHeap : {α : Type} → (Heap → α × Heap) → m α

export MonadHeap (onHeap)

instance {σ Q : Type} {R : Q → Type} [HasHeap σ] : MonadHeap (Task σ Q R) where
  onHeap f := fun s =>
    let (a, h) := f (HasHeap.heap s)
    .done a (HasHeap.setHeap h s)

instance {σ : Type} [HasHeap σ] : MonadHeap (StateM σ) where
  onHeap f := fun s =>
    let (a, h) := f (HasHeap.heap s)
    (a, HasHeap.setHeap h s)

/-- Looks at the heap. -/
def readHeap {m : Type → Type} [MonadHeap m] {α : Type} (f : Heap → α) : m α :=
  onHeap fun h => (f h, h)

end WorkerHost
