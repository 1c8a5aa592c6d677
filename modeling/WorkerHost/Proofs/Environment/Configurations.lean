import WorkerHost.Proofs.Environment.History
import WorkerHost.Proofs.Value.Sharing

/-!
# What workers see of configurations

A worker is given the very value that its handle keeps: no copy is made of it, neither when a worker
is started nor when a run begins, and workers that are started with the same value are all given
that one. So whatever callbacks in a worker do to their configuration, the host and other workers
see it, wherever their configurations lead to the object that was edited; values that share no
object with it do not change: `configuration_shared`. In this the contexts do not only communicate
by messages, `configuration_not_isolated`.
-/

namespace WorkerHost.Environment

variable {n : ℕ} {ws : List Worker} {log : List TerminalEvent} {y y' : Environment} {w : Worker}

/-- A worker that is started with a value is given this value. -/
lemma config_of_createWorker {source : SourceRef} {o : WorkerOptions} (h : History n ws log y)
    (hmethods : ∀ m ∈ o.methods, m.2.Modest)
    (hcreate : (createWorker source o).run y = (some (.ok w), y')) :
    Configured o.config w.config := by
  obtain ⟨v, names, hplaced, hy, -⟩ := h.books
  obtain ⟨v', names', hstarted, -⟩ := createWorker_started source hmethods hplaced.size hy
  rw [hcreate] at hstarted
  cases hstarted with
  | plain _ _ _ hconfig | attached _ _ _ _ hconfig | refused _ _ _ hconfig => exact hconfig

/-- Callbacks in the worker are given what the handle keeps. -/
lemma History.config_eq (h : History n ws log y) (hw : w ∈ ws) :
    (y.state.worker w.channel).config = w.config := by
  obtain ⟨v, names, hplaced, hy, -⟩ := h.books
  have hconfigured := hplaced.configured w hw
  rw [← hy.network.state, EnvironmentState.roster, Array.getElem?_map] at hconfigured
  obtain ⟨context, hcontext, hconfig⟩ := Option.map_eq_some_iff.1 hconfigured
  rw [WorkerContext.worker_eq hcontext]
  exact hconfig

/-- What is seen of the edits that callbacks in a worker make to their configuration. -/
structure OneConfiguration (ws : List Worker) (w : Worker) (y : Environment) : Prop where
  /-- they are given the configuration that the handle keeps -/
  given : (y.state.worker w.channel).config = w.config
  /-- and so are those in a worker that is started with it -/
  passed : ∀ source o, (∀ m ∈ o.methods, m.2.Modest) → o.config = some (.value w.config) →
    ∀ w' y', (createWorker source o).run y = (some (.ok w'), y') →
      w'.config = w.config ∧ (y'.state.worker w'.channel).config = w.config
  /-- what they edit is edited for every worker, and for the host, wherever its configuration leads
  to the same object -/
  shown : ∀ q, ∀ w' ∈ ws, ∀ seen ∈ [w'.config, (y.state.worker w'.channel).config], ∀ p,
    y.state.heap.ChangedAt (y.state.heap.request (y.state.worker w.channel).config q) seen p ↔
      (∃ r, y.state.heap.follow? w.config q.path = some (.object r) ∧
        y.state.heap.follow? w'.config p = some (.object r)) ∧
      y.state.heap.ChangedAt (y.state.heap.request w.config q) w.config q.path
  /-- however much they edit, they do not reach a value that shares no object with it -/
  spared : ∀ u, ¬ y.state.heap.Shares u w.config → ∀ qs : List Edit.Request,
    (∀ q ∈ qs, ∀ x, q.source = .value x → ¬ y.state.heap.Shares u x) →
    ∀ r ∈ y.state.heap.objectsFrom u,
      (y.state.heap.requests (y.state.worker w.channel).config qs).read r = y.state.heap.read r

/-- After whatever was done with an environment, each worker has one configuration together with the
host, and with every worker that is started with the same value. -/
theorem configuration_shared (h : History n ws log y) (hw : w ∈ ws) : OneConfiguration ws w y where
  given := h.config_eq hw
  passed source o hmethods ho w' y' hcreate := by
    have hconfig := (config_of_createWorker h hmethods hcreate).2 w.config ho
    have hlater := h.create source hmethods
    rw [hcreate] at hlater
    exact ⟨hconfig, (hlater.config_eq List.mem_cons_self).trans hconfig⟩
  shown q w' hw' seen hseen p := by
    have hconfig : seen = w'.config := by
      rcases List.mem_cons.1 hseen with rfl | hseen
      · rfl
      · rw [List.mem_singleton.1 hseen, h.config_eq hw']
    rw [h.config_eq hw, hconfig]
    exact Heap.changedAt_request_of_iff
  spared u hu qs hqs := by
    rw [h.config_eq hw]
    exact Heap.read_requests_of_not_shares hu hqs

theorem configuration_shared_idle : ∃ w y, History 1 [w] [] y ∧ OneConfiguration [w] w y := by
  obtain ⟨w, y, -, h⟩ := history_idle
  exact ⟨w, y, h, configuration_shared h List.mem_cons_self⟩

/-- An environment with a list. -/
def withList : Environment :=
  { idle with state := { idle.state with heap := (Heap.empty.newList []).2 } }

/-- A worker that is to be given this list. -/
def givenList : WorkerOptions :=
  { (default : WorkerOptions) with config := some (.value (.object 0)) }

/-- A worker is given a list. When its callbacks for `onReady` push something onto it, the list that
its handle has is another one. -/
theorem configuration_not_isolated : ∃ w y,
    (prepare (.inline "") givenList).run.run withList = (.ok (w, ""), y) ∧
    isReady y w.channel = true ∧
    y.state.heap.ChangedAt
      (y.state.heap.request (y.state.worker w.channel).config ⟨[], .push, .value .null⟩)
      w.config [] := by
  refine ⟨_, _, (run_prepare _ _ _).trans rfl, rfl, 0, rfl, fun heq => ?_⟩
  have hitems : [Value.null] = [] := Object.list.inj heq
  exact List.cons_ne_nil _ _ hitems

end WorkerHost.Environment
