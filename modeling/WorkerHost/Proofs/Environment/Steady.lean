import WorkerHost.Environment.Host
import WorkerHost.Proofs.Environment.Contexts
import WorkerHost.Proofs.Environment.Delivery

/-!
# What runs leave alone

Neither a worker's interpreter nor what a run of the host is bound to touches the registry or the
lifecycle of a context: a script changes the shell, the sinks of its output and the heap, and for
everything else it asks the host. So both bindings are steady, `WorkerContext.steady` and
`steady_hostBinding`, as long as nobody else changes the context while they wait. And a worker does
nothing to the context of its host, whatever its callbacks do, `WorkerContext.keeps_serve_own`.
-/

namespace WorkerHost
variable {between : EnvironmentState → EnvironmentState → Prop}

namespace WorkerContext
variable {channel : ℕ}

/-- A run of a worker has an interpreter, and no more than its callbacks touches its context. -/
theorem steady (hbetween : ∀ s s', between s s' →
    s'.context? (.worker channel) = s.context? (.worker channel)) (config : Value) :
    (binding channel config).Steady between true where
  interpreter? := Task.keeps_of_done fun _ => ⟨_, _, rfl, rfl⟩
  execute code := .bind ((Task.keeps_overlooks hbetween).execute
    ⟨fun s h => s.context?_heap h _, fun s _ hf _ _ => s.context?_updateWorker channel hf _⟩ code)
      fun _ => .pure _
  notify := (Task.keeps_overlooks hbetween).notify
  bound code s log r s' h := by
    obtain ⟨_, _, _, _, rfl, _, hpure⟩ := Step.course_bind.1 h
    obtain ⟨rfl, rfl, rfl⟩ := Step.course_done.1 hpure
    rfl

/-- A worker that serves a run does nothing to the host's context. -/
theorem keeps_serve_own {V : Type} {view : ContextState → V}
    (hbetween : ∀ s s', between s s' → view s'.own = view s.own) (mode : RunMode)
    (args : List Value) : (serve channel mode args).Keeps between fun s => view s.own :=
  (Task.keeps_overlooks hbetween).serve ⟨fun _ _ => rfl, fun _ _ => rfl, fun _ _ => rfl,
    fun _ _ _ => rfl⟩ mode args

end WorkerContext

/-- A run of the host has no interpreter, and asks nothing by itself. -/
theorem steady_hostBinding (config : Value) : (hostBinding config).Steady between false where
  interpreter? := .pure _
  execute _ := .pure _
  notify _ := Task.keeps_of_done fun _ => ⟨_, _, rfl, rfl⟩
  bound code s log r s' h := by
    obtain ⟨rfl, rfl, rfl⟩ := Step.course_done.1 h
    rfl

end WorkerHost
