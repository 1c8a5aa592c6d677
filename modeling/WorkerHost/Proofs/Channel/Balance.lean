import Mathlib.Algebra.Order.Group.Multiset
import Mathlib.Tactic.Abel
import WorkerHost.Proofs.Channel.Pair

/-!
# The two flows of a pair

The flows of a pair are read off its queues, tasks, stack and stash. While an operation is under
way, some calls are in the hands of whoever makes it: `Balanced c x y log` says that the flows are
valid with the calls `x` of the host and `y` of the worker in hand.

* `Balanced.advanceHost`, `Balanced.advanceWorker`: a call in hand goes on;
* `Balanced.issueHost`, `Balanced.issueWorker`: a new call is sent;
* `Balanced.completeHost`, `Balanced.settle`: a call returns.
-/

namespace WorkerHost
namespace Pair
variable {σ HH WH β : Type}

/-- The calls of the host: in hand, with the task that makes them, on their way, with a handler of
the worker, or on their way back. -/
def hostFlow (c : Pair σ HH WH β) (x : Multiset (CallId × Token)) (log : List (Event HH WH)) :
    Flow (WH ⊕ Function) where
  next := c.host.nextId
  waiting := {id | id ∈ c.host.pending}
  live := x + (callTokens (c.outgoing.map Outgoing.message) +
    callTokens c.worker.link.toWorker.messages +
    handledTokens (c.worker.thread.frames.map (·.answering)) +
    answerTokens c.worker.link.toHost.messages)
  log := hostLog log

/-- The calls of the worker: in hand, in the stash, on their way, with a task of the host, or on
their way back. -/
def workerFlow (c : Pair σ HH WH β) (y : Multiset (CallId × Token)) (log : List (Event HH WH)) :
    Flow HH where
  next := c.worker.endpoint.nextId
  waiting := {id | id ∈ c.worker.endpoint.outstanding}
  live := y + asideTokens c.worker.endpoint.stash +
    (callTokens c.worker.link.toHost.messages + taskTokens c.tasks +
      answerTokens c.worker.link.toWorker.messages)
  log := workerLog log

/-- What holds between the small steps of an operation. -/
structure Balanced (c : Pair σ HH WH β) (x y : Multiset (CallId × Token))
    (log : List (Event HH WH)) : Prop where
  opened : c.worker.Open
  host : (c.hostFlow x log).Valid "worker"
  worker : (c.workerFlow y log).Valid "host"

/-- Whether the numbers have sufficed so far. -/
structure Bounded (log : List (Event HH WH)) : Prop where
  host : (issuedIds (hostLog log)).length ≤ 2 ^ 64
  worker : (issuedIds (workerLog log)).length ≤ 2 ^ 64

lemma Bounded.of_append {log more : List (Event HH WH)} (h : Bounded (log ++ more)) :
    Bounded log := by
  obtain ⟨hhost, hworker⟩ := h
  rw [hostLog_append, issuedIds_append, List.length_append] at hhost
  rw [workerLog_append, issuedIds_append, List.length_append] at hworker
  exact ⟨by omega, by omega⟩

variable {c c' : Pair σ HH WH β} {x y x' y' : Multiset (CallId × Token)} {log : List (Event HH WH)}
  {id : CallId} {t t' : Token}

/-- Nothing but the flows counts. -/
lemma Balanced.congr (h : Balanced c x y log) (hopen : c'.worker.Open)
    (hhost : c'.hostFlow x' log = c.hostFlow x log)
    (hworker : c'.workerFlow y' log = c.workerFlow y log) : Balanced c' x' y' log :=
  ⟨hopen, hhost ▸ h.host, hworker ▸ h.worker⟩

/-! ## Calls in hand -/

lemma hostFlow_append (more : List (Event HH WH)) :
    c.hostFlow x (log ++ more) = { c.hostFlow x log with log := hostLog log ++ hostLog more } := by
  rw [hostFlow, hostLog_append]
  rfl

lemma workerFlow_append (more : List (Event HH WH)) :
    c.workerFlow y (log ++ more) =
      { c.workerFlow y log with log := workerLog log ++ workerLog more } := by
  rw [workerFlow, workerLog_append]
  rfl

/-- The events of one side are none of the other's. -/
lemma hostFlow_append_ofWorker (evs : List (CallEvent HH)) :
    c.hostFlow x (log ++ evs.map (.ofWorker id)) = c.hostFlow x log := by
  rw [hostFlow_append, hostLog_ofWorker, List.append_nil]
  rfl

lemma workerFlow_append_ofHost (evs : List (CallEvent (WH ⊕ Function))) :
    c.workerFlow y (log ++ evs.map (.ofHost id)) = c.workerFlow y log := by
  rw [workerFlow_append, workerLog_ofHost, List.append_nil]
  rfl

lemma live_hostFlow_cons : (c.hostFlow ((id, t) ::ₘ x) log).live =
    (id, t) ::ₘ (c.hostFlow x log).live :=
  Multiset.cons_add ..

lemma live_workerFlow_cons : (c.workerFlow ((id, t) ::ₘ y) log).live =
    (id, t) ::ₘ (c.workerFlow y log).live := by
  simp only [workerFlow, Multiset.cons_add]

lemma Balanced.advanceHost (h : Balanced c ((id, t) ::ₘ x) y log)
    {evs : List (CallEvent (WH ⊕ Function))} (step : Advance "worker" id t evs t') :
    Balanced c ((id, t') ::ₘ x) y (log ++ evs.map (.ofHost id)) := by
  refine ⟨h.opened, ?_, ?_⟩
  · have hmoved := h.host.advance live_hostFlow_cons step
    rw [hostFlow_append, hostLog_ofHost]
    rw [← live_hostFlow_cons] at hmoved
    exact hmoved
  · rw [workerFlow_append_ofHost]
    exact h.worker

lemma Balanced.advanceWorker (h : Balanced c x ((id, t) ::ₘ y) log) {evs : List (CallEvent HH)}
    (step : Advance "host" id t evs t') :
    Balanced c x ((id, t') ::ₘ y) (log ++ evs.map (.ofWorker id)) := by
  refine ⟨h.opened, ?_, ?_⟩
  · rw [hostFlow_append_ofWorker]
    exact h.host
  · have hmoved := h.worker.advance live_workerFlow_cons step
    rw [workerFlow_append, workerLog_ofWorker]
    rw [← live_workerFlow_cons] at hmoved
    exact hmoved

/-- A call that is taken has still to be served. -/
lemma Balanced.takeHost {target : Target} {args : Wire}
    (h : Balanced c ((id, .calling target args) ::ₘ x) y log) :
    Balanced c ((id, .taken target args) ::ₘ x) y log := by
  have htaken := h.advanceHost .take
  rwa [List.map_nil, List.append_nil] at htaken

lemma Balanced.takeWorker {target : Target} {args : Wire}
    (h : Balanced c x ((id, .calling target args) ::ₘ y) log) :
    Balanced c x ((id, .taken target args) ::ₘ y) log := by
  have htaken := h.advanceWorker .take
  rwa [List.map_nil, List.append_nil] at htaken

/-- A task of the host hands its call over, wherever it is among the tasks. -/
lemma Balanced.ofTask {before after : List (CallId × ServingStage)} {stage : ServingStage}
    (h : Balanced c x y log) (htasks : c.tasks = before ++ (id, stage) :: after) :
    Balanced { c with tasks := before ++ after } x ((id, stage.token) ::ₘ y) log := by
  refine h.congr h.opened rfl ?_
  simp only [workerFlow, htasks, taskTokens_middle]
  congr 1
  simp only [← Multiset.singleton_add]
  abel

/-- A call in hand is given to a task of the host. -/
lemma Balanced.toTask {before after : List (CallId × ServingStage)} (stage : ServingStage)
    (h : Balanced c x ((id, stage.token) ::ₘ y) log) (htasks : c.tasks = before ++ after) :
    Balanced { c with tasks := before ++ (id, stage) :: after } x y log := by
  refine h.congr h.opened rfl ?_
  simp only [workerFlow, htasks, taskTokens_middle]
  congr 1
  simp only [← Multiset.singleton_add]
  abel

/-- The host sends an answer that it has in hand. -/
lemma Balanced.postHost {m : Message} (h : Balanced c x ((id, .answering m) ::ₘ y) log)
    (hcall : callTokens [m] = 0) (hanswer : answerTokens [m] = {(id, .answering m)}) :
    Balanced (c.post m) x y log := by
  rw [post_eq h.opened]
  refine h.congr ⟨h.opened.endpoint, h.opened.link.ask m⟩ ?_ ?_
  · simp only [hostFlow, Link.ask, Queue.push, callTokens_append, hcall, add_zero]
  · simp only [workerFlow, WorkerSide.endpoint, Link.ask, Queue.push, answerTokens_append, hanswer]
    congr 1
    rw [← Multiset.singleton_add]
    abel

/-- The worker sends an answer that it has in hand. -/
lemma Balanced.postWorker {m : Message} (h : Balanced c ((id, .answering m) ::ₘ x) y log)
    (hcall : callTokens [m] = 0) (hanswer : answerTokens [m] = {(id, .answering m)}) :
    Balanced { c with worker := c.worker.post m } x y log := by
  rw [WorkerSide.post_of_joined h.opened.joined]
  refine h.congr ⟨h.opened.endpoint, h.opened.link.tell m⟩ ?_ ?_
  · simp only [hostFlow, Link.tell, Queue.push, answerTokens_append, hanswer]
    congr 1
    rw [← Multiset.singleton_add]
    abel
  · simp only [workerFlow, WorkerSide.endpoint, Link.tell, Queue.push, callTokens_append, hcall,
      add_zero]

/-! ## New calls -/

lemma Bounded.host_lt {target : Target} {xs : List Value} {hp : Heap}
    (h : Bounded (log ++ [.ofHost id (.issued target xs hp)])) :
    (issuedIds (hostLog log)).length < 2 ^ 64 := by
  have hle := h.host
  rw [hostLog_append, issuedIds_append, List.length_append] at hle
  exact Nat.lt_of_succ_le hle

lemma Bounded.worker_lt {target : Target} {xs : List Value} {hp : Heap}
    (h : Bounded (log ++ [.ofWorker id (.issued target xs hp)])) :
    (issuedIds (workerLog log)).length < 2 ^ 64 := by
  have hle := h.worker
  rw [workerLog_append, issuedIds_append, List.length_append] at hle
  exact Nat.lt_of_succ_le hle

/-- A task of the host makes a call. -/
lemma Balanced.issueHost {target : Target} {xs : List Value} {hp : Heap} {args : Wire}
    (h : Balanced c x y log) (hpack : packArgs hp xs = .ok args)
    (hbound : Bounded (log ++ [.ofHost ⟨c.host.nextId⟩ (.issued target xs hp)])) :
    Balanced { c with
        host := c.host.enter
        outgoing := c.outgoing ++ [⟨⟨c.host.nextId⟩, target, args⟩] } x y
      (log ++ [.ofHost ⟨c.host.nextId⟩ (.issued target xs hp)]) := by
  refine ⟨h.opened, ?_, ?_⟩
  · have hissue := h.host.issue target hpack hbound.host_lt
    convert hissue using 1
    simp only [hostFlow, HostEndpoint.enter, List.map_append, List.map_singleton, Outgoing.message,
      callTokens_append, callTokens_call, hostLog_append, Flow.mk.injEq, true_and]
    refine ⟨?_, ?_, rfl⟩
    · ext a
      simp [or_comm]
    · rw [← Multiset.singleton_add]
      abel
  · show Flow.Valid _ (workerFlow _ y (log ++ [.issued target xs hp].map (.ofHost _)))
    rw [workerFlow_append_ofHost]
    exact h.worker

/-- The message of a call goes to the queue, so the call stays on its way. -/
lemma Balanced.sendHost {o : Outgoing} {before after : List Outgoing} (h : Balanced c x y log)
    (houtgoing : c.outgoing = before ++ o :: after) :
    Balanced { c with
        outgoing := before ++ after
        worker := { c.worker with link := c.worker.link.ask o.message } } x y log := by
  refine h.congr ⟨h.opened.endpoint, h.opened.link.ask _⟩ ?_ ?_
  · simp only [hostFlow, Link.ask, Queue.push, houtgoing, List.map_append, List.map_cons,
      callTokens_append, callTokens_cons o.message (after.map Outgoing.message)]
    congr 1
    abel
  · simp only [workerFlow, WorkerSide.endpoint, Link.ask, Queue.push, Outgoing.message,
      answerTokens_append, answerTokens_call, add_zero]

/-- The worker sends a call. -/
lemma Balanced.issueWorker {target : Target} {xs : List Value} {hp : Heap} {args : Wire} {s : σ}
    (h : Balanced c x y log) (hpack : packArgs hp xs = .ok args)
    (hbound : Bounded (log ++ [.ofWorker ⟨c.worker.endpoint.nextId⟩ (.issued target xs hp)])) :
    Balanced { c with worker := { c.worker with state := s }.issue target args } x y
      (log ++ [.ofWorker ⟨c.worker.endpoint.nextId⟩ (.issued target xs hp)]) := by
  refine ⟨⟨h.opened.endpoint, h.opened.link.tell _⟩, ?_, ?_⟩
  · show Flow.Valid _ (hostFlow _ x (log ++ [.issued target xs hp].map (.ofWorker _)))
    rw [hostFlow_append_ofWorker]
    convert h.host using 1
    simp only [hostFlow, WorkerSide.issue, Link.tell, Queue.push, answerTokens_append,
      answerTokens_call, add_zero]
  · have hissue := h.worker.issue target hpack hbound.worker_lt
    convert hissue using 1
    simp only [workerFlow, WorkerSide.issue, WorkerSide.endpoint, Link.tell, Queue.push,
      callTokens_append, callTokens_call, workerLog_append, Flow.mk.injEq, true_and]
    refine ⟨?_, ?_, rfl⟩
    · ext a
      simp
    · rw [← Multiset.singleton_add]
      abel

/-! ## Calls that return -/

/-- A call of the host that has its outcome in hand returns. -/
lemma Balanced.completeHost {o : CallOutcome} (h : Balanced c ((id, .aside o) ::ₘ x) y log) :
    Balanced { c with host := { c.host with pending := c.host.pending.filter (· != id) } } x y
      (log ++ [.ofHost id (.completed o)]) := by
  refine ⟨h.opened, ?_, ?_⟩
  · have hcomplete := h.host.complete live_hostFlow_cons
    convert hcomplete using 1
    simp only [hostFlow, hostLog_append, Flow.mk.injEq, true_and]
    refine ⟨?_, rfl⟩
    ext a
    simp
  · show Flow.Valid _ (workerFlow _ y (log ++ [.completed o].map (.ofHost _)))
    rw [workerFlow_append_ofHost]
    exact h.worker

/-- A call of the worker returns whose outcome is in hand or in the stash. -/
lemma Balanced.settle {o : CallOutcome} {stash : List (CallId × CallOutcome)}
    (h : Balanced c x y log)
    (hstash : c.worker.endpoint.stash.filter (·.1 != id) = stash)
    (haside : y + asideTokens c.worker.endpoint.stash =
      (id, .aside o) ::ₘ (y' + asideTokens stash)) :
    Balanced { c with worker := c.worker.setEndpoint (c.worker.endpoint.settle id) } x y'
      (log ++ [.ofWorker id (.completed o)]) := by
  refine ⟨⟨h.opened.endpoint, h.opened.link⟩, ?_, ?_⟩
  · show Flow.Valid _ (hostFlow _ x (log ++ [.completed o].map (.ofWorker _)))
    rw [hostFlow_append_ofWorker]
    exact h.host
  -- the outcome leaves the hand or the stash, all the rest stays
  · have hlive : (c.workerFlow y log).live = (id, .aside o) ::ₘ (y' + asideTokens stash +
        (callTokens c.worker.link.toHost.messages + taskTokens c.tasks +
          answerTokens c.worker.link.toWorker.messages)) := by
      simp only [workerFlow, haside, Multiset.cons_add]
    have hcomplete := h.worker.complete hlive
    convert hcomplete using 1
    simp only [workerFlow, WorkerSide.setEndpoint, WorkerSide.endpoint, WorkerEndpoint.settle,
      workerLog_append, Flow.mk.injEq, true_and]
    refine ⟨?_, ?_, rfl⟩
    · ext a
      simp
    · rw [← hstash]
      rfl

/-- An outcome in hand is the only trace of its call, so the stash has none. -/
lemma Balanced.stash_of_hand (h : Balanced c x ((id, t) ::ₘ y) log) :
    c.worker.endpoint.stash.filter (·.1 != id) = c.worker.endpoint.stash := by
  obtain ⟨hzero, -⟩ := h.worker.of_cons live_workerFlow_cons
  refine List.filter_eq_self.2 fun e he => bne_iff_ne.2 ?_
  intro heq
  subst heq
  refine tokens_eq_zero.1 hzero (.aside e.2) ?_
  simp only [workerFlow, asideTokens, Multiset.mem_add, Multiset.mem_coe]
  exact .inl (.inr (List.mem_map_of_mem he))

/-- No other outcome is put aside for a call than the one that is found. -/
lemma Balanced.stash_of_aside {o : CallOutcome} (h : Balanced c x 0 log)
    (haside : c.worker.endpoint.aside? id = some o) :
    asideTokens c.worker.endpoint.stash =
      (id, .aside o) ::ₘ asideTokens (c.worker.endpoint.stash.filter (·.1 != id)) := by
  have hmem : (id, o) ∈ c.worker.endpoint.stash := by
    obtain ⟨e, he, rfl⟩ := Option.map_eq_some_iff.1 haside
    have hid : e.1 = id := by simpa using List.find?_some he
    rw [← hid]
    exact List.mem_of_find?_eq_some he
  have hmem' : (id, Token.aside o) ∈ asideTokens c.worker.endpoint.stash :=
    Multiset.mem_coe.2 (List.mem_map_of_mem (f := fun e => (e.1, Token.aside e.2)) hmem)
  obtain ⟨rest, hrest⟩ := Multiset.exists_cons_of_mem hmem'
  have hlive : (c.workerFlow 0 log).live = (id, .aside o) ::ₘ (rest +
      (callTokens c.worker.link.toHost.messages + taskTokens c.tasks +
        answerTokens c.worker.link.toWorker.messages)) := by
    simp only [workerFlow, zero_add, hrest, Multiset.cons_add]
  obtain ⟨hzero, -⟩ := h.worker.of_cons hlive
  -- nothing else in the stash bears the number, so the filter drops just this one
  have hne : ∀ e ∈ rest, e.1 ≠ id := by
    intro e he heq
    subst heq
    exact tokens_eq_zero.1 hzero e.2 (Multiset.mem_add.2 (.inl he))
  rw [asideTokens_filter, hrest, Multiset.filter_cons_of_neg _ (by simp),
    Multiset.filter_eq_self.2 hne]

end Pair
end WorkerHost
