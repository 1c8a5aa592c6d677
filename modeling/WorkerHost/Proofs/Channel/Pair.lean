import WorkerHost.Proofs.Channel.Trace

/-!
# A host and a worker joined by a link

A `Pair` is the two ends of a channel with the link between them, and the tasks of the host: those
that make a call and have not sent its message, and those that serve a call of the worker. A task
goes on whenever it likes, so what it looks up is what is there by then. Every call that is under
way shows up somewhere in a pair, as a token.

* `callTokens`, `answerTokens`, `handledTokens`, `taskTokens`, `asideTokens`: the tokens of queues,
  stack, tasks and stash;
* `Pair.Step`, `Pair.Run`: what can happen, in whatever order, while both ends are there.
-/

namespace WorkerHost

/-- The token of a message to the peer that calls. -/
def Message.callToken? : Message → Option (CallId × Token)
  | .call id target args => some (id, .calling target args)
  | _ => none

/-- The token of a message that answers. -/
def Message.answerToken? : Message → Option (CallId × Token)
  | .call .. => none
  | m => some (m.id, .answering m)

def callTokens (ms : List Message) : Multiset (CallId × Token) :=
  ms.filterMap Message.callToken?

def answerTokens (ms : List Message) : Multiset (CallId × Token) :=
  ms.filterMap Message.answerToken?

def handledTokens (ids : List CallId) : Multiset (CallId × Token) :=
  ids.map (·, Token.handled)

/-- How far a task of the host has come with a call of the worker. -/
inductive ServingStage where
  /-- it has the call, and has not looked for what the target names -/
  | taken (target : Target) (args : Wire)
  /-- a handler runs -/
  | running
  /-- it has refused the call, and has still to send the answer -/
  | refused (e : RemoteError)

def ServingStage.token : ServingStage → Token
  | taken target args => .taken target args
  | running => .handled
  | refused e => .refused e

def taskTokens (tasks : List (CallId × ServingStage)) : Multiset (CallId × Token) :=
  tasks.map fun t => (t.1, t.2.token)

def asideTokens (stash : List (CallId × CallOutcome)) : Multiset (CallId × Token) :=
  stash.map fun e => (e.1, Token.aside e.2)

/-! ## Tokens -/

section
variable {ms more : List Message} {id : CallId}

lemma callTokens_append : callTokens (ms ++ more) = callTokens ms + callTokens more := by
  rw [callTokens, List.filterMap_append]
  rfl

lemma answerTokens_append : answerTokens (ms ++ more) = answerTokens ms + answerTokens more := by
  rw [answerTokens, List.filterMap_append]
  rfl

lemma callTokens_cons (m : Message) (ms : List Message) :
    callTokens (m :: ms) = callTokens [m] + callTokens ms := by
  rw [← callTokens_append, List.singleton_append]

lemma answerTokens_cons (m : Message) (ms : List Message) :
    answerTokens (m :: ms) = answerTokens [m] + answerTokens ms := by
  rw [← answerTokens_append, List.singleton_append]

lemma callTokens_call (target : Target) (args : Wire) :
    callTokens [.call id target args] = {(id, .calling target args)} :=
  rfl

lemma answerTokens_call (target : Target) (args : Wire) :
    answerTokens [.call id target args] = 0 :=
  rfl

lemma handledTokens_cons (ids : List CallId) :
    handledTokens (id :: ids) = (id, .handled) ::ₘ handledTokens ids :=
  rfl

/-- A task stands for its call, wherever it is among the others. -/
lemma taskTokens_middle (before after : List (CallId × ServingStage)) (stage : ServingStage) :
    taskTokens (before ++ (id, stage) :: after) =
      (id, stage.token) ::ₘ taskTokens (before ++ after) := by
  simp only [taskTokens, List.map_append, List.map_cons]
  exact Multiset.coe_eq_coe.2 List.perm_middle

lemma answerTo_eq (h : Heap) (id : CallId) (r : Except RemoteError Value) :
    (∃ w, answerTo h id r = .reply id w) ∨ ∃ e, answerTo h id r = .fail id e := by
  unfold answerTo
  split
  · exact .inr ⟨_, rfl⟩
  · split
    · exact .inl ⟨_, rfl⟩
    · exact .inr ⟨_, rfl⟩

/-- An answer is no call, and bears the number of the call that it answers. -/
lemma answerTo_tokens (h : Heap) (id : CallId) (r : Except RemoteError Value) :
    callTokens [answerTo h id r] = 0 ∧
      answerTokens [answerTo h id r] = {(id, .answering (answerTo h id r))} := by
  rcases answerTo_eq h id r with ⟨w, hw⟩ | ⟨e, he⟩
  · rw [hw]
    exact ⟨rfl, rfl⟩
  · rw [he]
    exact ⟨rfl, rfl⟩

/-- A message calls, or it carries an outcome into whatever heap. -/
lemma tokens_message (m : Message) (h : Heap) :
    (∃ id target args, m = .call id target args) ∨
      (callTokens [m] = 0 ∧ answerTokens [m] = {(m.id, .answering m)} ∧
        ∃ o h', m.outcome? h = some (o, h')) := by
  cases m with
  | call id target args => exact .inl ⟨id, target, args, rfl⟩
  | reply id w =>
    refine .inr ⟨rfl, rfl, ?_⟩
    simp only [Message.outcome?]
    split
    · exact ⟨_, _, rfl⟩
    · exact ⟨_, _, rfl⟩
  | fail id e => exact .inr ⟨rfl, rfl, _, _, rfl⟩

lemma asideTokens_filter (stash : List (CallId × CallOutcome)) :
    asideTokens (stash.filter (·.1 != id)) = (asideTokens stash).filter (·.1 ≠ id) := by
  rw [asideTokens, asideTokens, Multiset.filter_coe, List.filter_map]
  refine congrArg (fun l => Multiset.ofList (List.map _ l)) (List.filter_congr fun e _ => ?_)
  simp [bne, beq_eq_decide]

end

/-- A call of the host that has its number, and whose message is still to be sent. -/
structure Outgoing where
  id : CallId
  target : Target
  args : Wire

def Outgoing.message (o : Outgoing) : Message :=
  .call o.id o.target o.args

/-- Two ends of a channel, with the tasks of the host. -/
structure Pair (σ HH WH β : Type) where
  host : HostEndpoint HH
  outgoing : List Outgoing
  tasks : List (CallId × ServingStage)
  worker : WorkerSide σ WH β

/-- A call gets its number, and an entry under it. -/
def HostEndpoint.enter {H : Type} (e : HostEndpoint H) : HostEndpoint H :=
  { e with nextId := e.nextId + 1, pending := e.pending ++ [⟨e.nextId⟩] }

/-- What the code around an end may do to it at any time. -/
inductive HostEndpoint.Managed {H : Type} (e : HostEndpoint H) : HostEndpoint H → Prop where
  | register {method handler e'} (h : e.register method handler = .ok e') : Managed e e'
  | unregister (method) : Managed e (e.unregister method).2
  | expose (callable) : Managed e (e.expose callable).2
  | release (handle) : Managed e (e.release handle).2

inductive WorkerEndpoint.Managed {H : Type} (e : WorkerEndpoint H) : WorkerEndpoint H → Prop where
  | register {method handler e'} (h : e.register method handler = .ok e') : Managed e e'
  | unregister (method) : Managed e (e.unregister method).2
  | expose (callable) : Managed e (e.expose callable).2
  | release (handle) : Managed e (e.release handle).2

/-- Managing handlers and handles touches no calls. -/
lemma HostEndpoint.Managed.unchanged {H : Type} {e e' : HostEndpoint H} (h : e.Managed e') :
    e'.nextId = e.nextId ∧ e'.pending = e.pending := by
  cases h with
  | register h =>
    obtain ⟨hs, -, h⟩ := bind_eq_ok.1 h
    cases h
    exact ⟨rfl, rfl⟩
  | unregister => exact ⟨rfl, rfl⟩
  | expose => exact ⟨rfl, rfl⟩
  | release => exact ⟨rfl, rfl⟩

lemma WorkerEndpoint.Managed.unchanged {H : Type} {e e' : WorkerEndpoint H} (h : e.Managed e') :
    e'.nextId = e.nextId ∧ e'.closed = e.closed ∧ e'.outstanding = e.outstanding ∧
      e'.stash = e.stash := by
  cases h with
  | register h =>
    obtain ⟨hs, -, h⟩ := bind_eq_ok.1 h
    cases h
    exact ⟨rfl, rfl, rfl, rfl⟩
  | unregister => exact ⟨rfl, rfl, rfl, rfl⟩
  | expose => exact ⟨rfl, rfl, rfl, rfl⟩
  | release => exact ⟨rfl, rfl, rfl, rfl⟩

/-- Whether the thread has neither a computation of its own under way nor the loop that serves. -/
def WorkerThread.AtRest {σ H β : Type} (t : WorkerThread σ H β) : Prop :=
  t.frames = [] ∧ (t.base = .idle ∨ ∃ b, t.base = .finished b)

namespace Pair
variable {σ HH WH β : Type}

/-- Two new ends at a new link. -/
def new (name : String) (state : σ) : Pair σ HH WH β :=
  ⟨.new name, [], [], ⟨⟨.new name, [], .idle⟩, .new, state⟩⟩

/-- The host sends an answer. -/
def post (c : Pair σ HH WH β) (m : Message) : Pair σ HH WH β :=
  { c with worker := { c.worker with link := HostEndpoint.post c.worker.link m } }

/-- A host whose link has both ends sends whatever it posts. -/
lemma post_eq {c : Pair σ HH WH β} (hc : c.worker.Open) (m : Message) :
    c.post m = { c with worker := { c.worker with link := c.worker.link.ask m } } := by
  rw [post, HostEndpoint.post_of_joined hc.link.joined.1]

/-- The host takes a message. -/
def receive? [HasHeap σ] (c : Pair σ HH WH β) : Option (HostEvent × Pair σ HH WH β) :=
  match c.worker.link.toHost.receive with
  | .message m q =>
    let (event, host, h) := c.host.dispatch (HasHeap.heap c.worker.state) m
    let worker := { c.worker with
      link := { c.worker.link with toHost := q }
      state := HasHeap.setHeap h c.worker.state }
    some (event, { c with host := host, worker := worker })
  | _ => none

/-- What can happen at a pair, and what it does to calls. -/
inductive Step [HasHeap σ] (ps : WorkerPrograms σ WH) :
    Pair σ HH WH β → List (Event HH WH) → Pair σ HH WH β → Prop where
  /-- a task of the host makes a call: it gets a number, and an entry -/
  | enter {c xs args} (target : Target)
      (hpack : packArgs (HasHeap.heap c.worker.state) xs = .ok args) :
      Step ps c [.ofHost ⟨c.host.nextId⟩ (.issued target xs (HasHeap.heap c.worker.state))]
        { c with
          host := c.host.enter
          outgoing := c.outgoing ++ [⟨⟨c.host.nextId⟩, target, args⟩] }
  /-- any of the calls that have an entry is sent -/
  | send {c o before after q} (h : c.outgoing = before ++ o :: after)
      (hsend : c.worker.link.toWorker.send? o.message = some q) :
      Step ps c []
        { c with
          outgoing := before ++ after
          worker := { c.worker with link := { c.worker.link with toWorker := q } } }
  /-- a call of the host has its outcome -/
  | resolve {c id outcome c'} (h : c.receive? = some (.resolved id outcome, c')) :
      Step ps c
        [.ofHost id (.received (HasHeap.heap c.worker.state) outcome),
          .ofHost id (.completed outcome)] c'
  /-- the host starts a task for a call of the worker -/
  | take {c id target args c'} (h : c.receive? = some (.inbound id target args, c')) :
      Step ps c [] { c' with tasks := c'.tasks ++ [(id, .taken target args)] }
  /-- any of the tasks that have a call finds what it names, and runs it -/
  | accept {c id target args before after handler args' h'}
      (h : c.tasks = before ++ (id, .taken target args) :: after)
      (hrun : Inbound.of "host" (HasHeap.heap c.worker.state) (c.host.handlerFor target) target
        args = .run handler args' h') :
      Step ps c
        [.ofWorker id (.served target args (HasHeap.heap c.worker.state)
            (c.host.handlerFor target)),
          .ofWorker id (.ran handler args' h')]
        { c with
          tasks := before ++ (id, .running) :: after
          worker := { c.worker with state := HasHeap.setHeap h' c.worker.state } }
  /-- any of the tasks that have a call refuses it -/
  | refuse {c id target args before after e}
      (h : c.tasks = before ++ (id, .taken target args) :: after)
      (hrefused : Inbound.of "host" (HasHeap.heap c.worker.state) (c.host.handlerFor target) target
        args = .refused e) :
      Step ps c
        [.ofWorker id (.served target args (HasHeap.heap c.worker.state)
          (c.host.handlerFor target))]
        { c with tasks := before ++ (id, .refused e) :: after }
  /-- the host drops a reply that no call waits for -/
  | ignore {c c'} (h : c.receive? = some (.unknown, c')) : Step ps c [] c'
  /-- any of the tasks that have refused a call sends the answer -/
  | fail {c id e before after} (h : c.tasks = before ++ (id, .refused e) :: after) :
      Step ps c [.ofWorker id (.answered (.error e) (HasHeap.heap c.worker.state))]
        ({ c with tasks := before ++ after }.post (.fail id e))
  /-- any of the tasks that run a handler comes to an end, with any result -/
  | finish {c id before after} (h : c.tasks = before ++ (id, .running) :: after)
      (result : Except RemoteError Value) :
      Step ps c [.ofWorker id (.answered result (HasHeap.heap c.worker.state))]
        ({ c with tasks := before ++ after }.post
          (answerTo (HasHeap.heap c.worker.state) id result))
  /-- the worker thread moves -/
  | move {c w} (h : c.worker.move? ps = some w) :
      Step ps c (c.worker.moveEvents ps) { c with worker := w }
  /-- the worker thread starts a computation of its own -/
  | start {c} (h : c.worker.thread.AtRest) (task : WorkerTask σ β) :
      Step ps c (c.worker.baseEvents (task c.worker.state))
        { c with worker := c.worker.start task }
  /-- the worker thread starts to serve -/
  | serve {c} (h : c.worker.thread.AtRest) :
      Step ps c []
        { c with worker := { c.worker with thread := { c.worker.thread with base := .serving } } }
  | manageHost {c host} (h : c.host.Managed host) : Step ps c [] { c with host := host }
  | manageWorker {c e} (h : c.worker.endpoint.Managed e) :
      Step ps c [] { c with worker := c.worker.setEndpoint e }
  /-- whatever else goes on works on the state -/
  | work {c} (s : σ) : Step ps c [] { c with worker := { c.worker with state := s } }

/-- What happens from two new ends on, one step after another. -/
inductive Run [HasHeap σ] (ps : WorkerPrograms σ WH) (name : String) (state : σ) :
    Pair σ HH WH β → List (Event HH WH) → Prop where
  | new : Run ps name state (.new name state) []
  | step {c log evs c'} (before : Run ps name state c log) (h : Step ps c evs c') :
      Run ps name state c' (log ++ evs)

end Pair
end WorkerHost
