import WorkerHost.Proofs.Channel.Deeds
import WorkerHost.Proofs.Channel.Flow
import WorkerHost.Channel.Host

/-!
# What happens to calls at the two ends

Every operation of an end has a list of events beside it: what it does to which calls. The lists
follow the operations case by case, and take from the operations what the events hold.

* `WorkerSide.moveEvents`: the events of a move of the worker thread;
* `WorkerSide.move_cases` and its like: what an operation comes to, and what its events are.
-/

namespace WorkerHost

/-- What happens to a call of the host, or to a call of the worker. -/
inductive Event (HH WH : Type) where
  | ofHost (id : CallId) (e : CallEvent (WH ⊕ Function))
  | ofWorker (id : CallId) (e : CallEvent HH)

namespace Event
variable {HH WH : Type}

def host? : Event HH WH → Option (CallId × CallEvent (WH ⊕ Function))
  | ofHost id e => some (id, e)
  | ofWorker .. => none

def worker? : Event HH WH → Option (CallId × CallEvent HH)
  | ofWorker id e => some (id, e)
  | ofHost .. => none

end Event

section
variable {HH WH : Type} {log more : List (Event HH WH)} {id : CallId}

/-- The events of the calls of the host. -/
def hostLog (log : List (Event HH WH)) : List (CallId × CallEvent (WH ⊕ Function)) :=
  log.filterMap Event.host?

/-- The events of the calls of the worker. -/
def workerLog (log : List (Event HH WH)) : List (CallId × CallEvent HH) :=
  log.filterMap Event.worker?

@[simp] lemma hostLog_append : hostLog (log ++ more) = hostLog log ++ hostLog more :=
  List.filterMap_append

@[simp] lemma workerLog_append : workerLog (log ++ more) = workerLog log ++ workerLog more :=
  List.filterMap_append

@[simp] lemma hostLog_ofHost (evs : List (CallEvent (WH ⊕ Function))) :
    hostLog (evs.map fun e => (.ofHost id e : Event HH WH)) = evs.map (id, ·) := by
  simp [hostLog, List.filterMap_map, Function.comp_def, Event.host?]

@[simp] lemma hostLog_ofWorker (evs : List (CallEvent HH)) :
    hostLog (evs.map fun e => (.ofWorker id e : Event HH WH)) = [] := by
  simp [hostLog, List.filterMap_map, Function.comp_def, Event.host?]

@[simp] lemma workerLog_ofWorker (evs : List (CallEvent HH)) :
    workerLog (evs.map fun e => (.ofWorker id e : Event HH WH)) = evs.map (id, ·) := by
  simp [workerLog, List.filterMap_map, Function.comp_def, Event.worker?]

@[simp] lemma workerLog_ofHost (evs : List (CallEvent (WH ⊕ Function))) :
    workerLog (evs.map fun e => (.ofHost id e : Event HH WH)) = [] := by
  simp [workerLog, List.filterMap_map, Function.comp_def, Event.worker?]

end

/-- The host reaches a queue of which both ends are there. What it posts to any other is lost. -/
lemma HostEndpoint.post_of_joined {l : Link} (hjoined : l.toWorker.Joined) (m : Message) :
    HostEndpoint.post l m = l.ask m := by
  rw [post, Queue.send?_eq hjoined]
  rfl

lemma HostEndpoint.post_of_not_joined {l : Link} (hgone : ¬ l.toWorker.Joined) (m : Message) :
    HostEndpoint.post l m = l := by
  rw [post, Queue.send?_eq_none hgone]

/-- The host end resolves a call that waits. -/
lemma HostEndpoint.dispatch_eq {H : Type} {e : HostEndpoint H} {h h' : Heap} {m : Message}
    {o : CallOutcome} (ho : m.outcome? h = some (o, h')) (hwaits : m.id ∈ e.pending) :
    e.dispatch h m =
      (.resolved m.id o, { e with pending := e.pending.filter (· != m.id) }, h') := by
  have hcontains := List.contains_iff_mem.2 hwaits
  cases m with
  | call => cases ho
  | reply => simp only [dispatch, ho, hcontains, if_true]
  | fail => simp only [dispatch, ho, hcontains, if_true]

/-! ## Events of the worker thread -/

namespace WorkerSide
variable {σ HH WH β : Type} [HasHeap σ]

/-- A computation has sent the call that it waits for. -/
def blockedEvents {α : Type} (b : Blocked σ α) (w : WorkerSide σ WH β) : List (Event HH WH) :=
  [.ofWorker b.id (.issued b.call.target b.call.args (HasHeap.heap w.state))]

def handlerEvents (answering : CallId) (w : WorkerSide σ WH β)
    (step : WorkerStep σ (Except RemoteError Value)) : List (Event HH WH) :=
  match runStep w step with
  | (.inl result, w) => [.ofHost answering (.answered result (HasHeap.heap w.state))]
  | (.inr b, w) => blockedEvents b w

def baseEvents (w : WorkerSide σ WH β) (step : WorkerStep σ β) : List (Event HH WH) :=
  match runStep w step with
  | (.inl _, _) => []
  | (.inr b, w) => blockedEvents b w

def serveEvents (ps : WorkerPrograms σ WH) (w : WorkerSide σ WH β) (id : CallId) (target : Target)
    (args : Wire) : List (Event HH WH) :=
  let h := HasHeap.heap w.state
  let found := w.endpoint.handlerFor target
  match Inbound.of "worker" h found target args with
  | .refused e => [.ofHost id (.served target args h found), .ofHost id (.answered (.error e) h)]
  | .run callable args' h' =>
    [.ofHost id (.served target args h found), .ofHost id (.ran callable args' h')] ++
      handlerEvents id w (ps.callable callable args' (HasHeap.setHeap h' w.state))

def resumeEvents (w : WorkerSide σ WH β) (outcome : CallOutcome) : List (Event HH WH) :=
  match w.thread.frames with
  | f :: _ =>
    .ofWorker f.waiting (.completed outcome) ::
      handlerEvents f.answering w.popTop (f.resume outcome w.state)
  | [] =>
    match w.thread.base with
    | .waiting id resume =>
      .ofWorker id (.completed outcome) :: baseEvents w.popTop (resume outcome w.state)
    | _ => []

def replyEvents (w : WorkerSide σ WH β) (m : Message) : List (Event HH WH) :=
  match m.outcome? (HasHeap.heap w.state) with
  | some (outcome, h) =>
    let received := Event.ofWorker m.id (.received (HasHeap.heap w.state) outcome)
    if w.top? = some m.id then
      received :: resumeEvents { w with state := HasHeap.setHeap h w.state } outcome
    else if w.endpoint.outstanding.contains m.id then [received]
    else []
  | none => []

def takeEvents (ps : WorkerPrograms σ WH) (w : WorkerSide σ WH β) (m : Message) :
    List (Event HH WH) :=
  match m with
  | .call id target args => serveEvents ps w id target args
  | m => replyEvents w m

def disconnectEvents (w : WorkerSide σ WH β) : List (Event HH WH) :=
  let w := w.setEndpoint { w.endpoint with closed := true }
  match w.top? with
  | some _ => resumeEvents w (.error .closed)
  | none => []

def moveEvents (ps : WorkerPrograms σ WH) (w : WorkerSide σ WH β) : List (Event HH WH) :=
  if w.isListening then
    match w.top?.bind w.endpoint.aside? with
    | some outcome => resumeEvents w outcome
    | none =>
      match w.link.toWorker.receive with
      | .message m q => takeEvents ps { w with link := { w.link with toWorker := q } } m
      | .ended => disconnectEvents w
      | .waiting => []
  else []

/-! ## What each operation comes to -/

/-- The worker's side when the end of its queue has been found. -/
def hungUp (w : WorkerSide σ WH β) : WorkerSide σ WH β :=
  w.setEndpoint { w.endpoint with closed := true }

variable (HH)

/-- A call is refused, or the handler that it names is run. -/
lemma serve_cases (ps : WorkerPrograms σ WH) (w : WorkerSide σ WH β) (id : CallId)
    (target : Target) (args : Wire) :
    let h := HasHeap.heap w.state
    let found := w.endpoint.handlerFor target
    (∃ e, Inbound.of "worker" h found target args = .refused e ∧
      serveCall ps w id target args = w.post (.fail id e) ∧
      (serveEvents ps w id target args : List (Event HH WH)) =
        [.ofHost id (.served target args h found), .ofHost id (.answered (.error e) h)]) ∨
    ∃ callable args' h', Inbound.of "worker" h found target args = .run callable args' h' ∧
      serveCall ps w id target args =
        runHandler id w (ps.callable callable args' (HasHeap.setHeap h' w.state)) ∧
      (serveEvents ps w id target args : List (Event HH WH)) =
        [.ofHost id (.served target args h found), .ofHost id (.ran callable args' h')] ++
          handlerEvents id w (ps.callable callable args' (HasHeap.setHeap h' w.state)) := by
  unfold serveCall serveEvents
  dsimp only
  cases Inbound.of "worker" (HasHeap.heap w.state) (w.endpoint.handlerFor target) target args with
  | refused e => exact .inl ⟨e, rfl, rfl, rfl⟩
  | run callable args' h' => exact .inr ⟨callable, args', h', rfl, rfl, rfl⟩

/-- The call on top returns to the handler that has made it, or to the thread's own computation; if
there is none, nothing happens. -/
lemma resume_cases (w : WorkerSide σ WH β) (o : CallOutcome) :
    (∃ f rest, w.thread.frames = f :: rest ∧
      w.resumeTop o = runHandler f.answering w.popTop (f.resume o w.state) ∧
      (w.resumeEvents o : List (Event HH WH)) = .ofWorker f.waiting (.completed o) ::
        handlerEvents f.answering w.popTop (f.resume o w.state)) ∨
    (∃ id resume, w.thread.frames = [] ∧ w.thread.base = .waiting id resume ∧
      w.resumeTop o = runBase w.popTop (resume o w.state) ∧
      (w.resumeEvents o : List (Event HH WH)) = .ofWorker id (.completed o) ::
        baseEvents w.popTop (resume o w.state)) ∨
    w.callIds = [] ∧ w.resumeTop o = w ∧ (w.resumeEvents o : List (Event HH WH)) = [] := by
  unfold resumeTop resumeEvents callIds
  cases w.thread.frames with
  | cons f rest => exact .inl ⟨f, rest, rfl, rfl, rfl⟩
  | nil =>
    cases w.thread.base with
    | waiting id resume => exact .inr (.inl ⟨id, resume, rfl, rfl, rfl, rfl⟩)
    | _ => exact .inr (.inr ⟨rfl, rfl, rfl⟩)

/-- An answer goes to the call on top, or it is put aside for another call that waits, or nothing
comes of it. -/
lemma reply_cases (w : WorkerSide σ WH β) (m : Message) :
    (∃ o h, m.outcome? (HasHeap.heap w.state) = some (o, h) ∧ w.top? = some m.id ∧
      w.takeReply m = resumeTop { w with state := HasHeap.setHeap h w.state } o ∧
      (w.replyEvents m : List (Event HH WH)) =
        .ofWorker m.id (.received (HasHeap.heap w.state) o) ::
          resumeEvents { w with state := HasHeap.setHeap h w.state } o) ∨
    (∃ o h, m.outcome? (HasHeap.heap w.state) = some (o, h) ∧ m.id ∈ w.endpoint.outstanding ∧
      w.takeReply m =
        { w.setEndpoint (w.endpoint.putAside m.id o) with state := HasHeap.setHeap h w.state } ∧
      (w.replyEvents m : List (Event HH WH)) =
        [.ofWorker m.id (.received (HasHeap.heap w.state) o)]) ∨
    (m.outcome? (HasHeap.heap w.state) = none ∨ m.id ∉ w.endpoint.outstanding) ∧
      w.takeReply m = w ∧ (w.replyEvents m : List (Event HH WH)) = [] := by
  unfold takeReply replyEvents
  cases m.outcome? (HasHeap.heap w.state) with
  | none => exact .inr (.inr ⟨.inl rfl, rfl, rfl⟩)
  | some read =>
    obtain ⟨o, h⟩ := read
    dsimp only
    by_cases htop : w.top? = some m.id
    · rw [if_pos htop, if_pos htop]
      exact .inl ⟨o, h, rfl, htop, rfl, rfl⟩
    rw [if_neg htop, if_neg htop]
    by_cases hwaits : w.endpoint.outstanding.contains m.id = true
    · rw [if_pos hwaits, if_pos hwaits]
      exact .inr (.inl ⟨o, h, rfl, List.contains_iff_mem.1 hwaits, rfl, rfl⟩)
    · rw [if_neg hwaits, if_neg hwaits]
      exact .inr (.inr ⟨.inr fun hmem => hwaits (List.contains_iff_mem.2 hmem), rfl, rfl⟩)

/-- At the end of the queue the call on top fails; if there is none, the thread is over. -/
lemma disconnect_cases (w : WorkerSide σ WH β) :
    (∃ id rest, w.callIds = id :: rest ∧ w.disconnect = w.hungUp.resumeTop (.error .closed) ∧
      (w.disconnectEvents : List (Event HH WH)) = w.hungUp.resumeEvents (.error .closed)) ∨
    w.callIds = [] ∧
      w.disconnect = { w.hungUp with thread := { w.hungUp.thread with base := .ended } } ∧
      (w.disconnectEvents : List (Event HH WH)) = [] := by
  have htop : (w.setEndpoint { w.endpoint with closed := true }).top? = w.callIds.head? :=
    top?_eq w.hungUp
  unfold disconnect disconnectEvents
  dsimp only
  rw [htop]
  cases w.callIds with
  | cons id rest => exact .inl ⟨id, rest, rfl, rfl, rfl⟩
  | nil => exact .inr ⟨rfl, rfl, rfl⟩

/-- A thread that listens moves in three ways: an answer that was put aside goes to the call on top,
or the next message is taken, or the queue is found at its end. -/
lemma move_cases {ps : WorkerPrograms σ WH} {w w' : WorkerSide σ WH β}
    (hmove : w.move? ps = some w') :
    w.isListening = true ∧
      ((∃ outcome, w.top?.bind w.endpoint.aside? = some outcome ∧ w' = w.resumeTop outcome ∧
          (w.moveEvents ps : List (Event HH WH)) = w.resumeEvents outcome) ∨
        w.top?.bind w.endpoint.aside? = none ∧
          ((∃ m q, w.link.toWorker.receive = .message m q ∧
              w' = take ps { w with link := { w.link with toWorker := q } } m ∧
              (w.moveEvents ps : List (Event HH WH)) =
                takeEvents ps { w with link := { w.link with toWorker := q } } m) ∨
            w.link.toWorker.receive = .ended ∧ w' = w.disconnect ∧
              (w.moveEvents ps : List (Event HH WH)) = w.disconnectEvents)) := by
  unfold move? at hmove
  unfold moveEvents
  by_cases hlistening : w.isListening = true
  · refine ⟨hlistening, ?_⟩
    rw [if_pos hlistening] at hmove ⊢
    cases haside : w.top?.bind w.endpoint.aside? with
    | some outcome =>
      simp only [haside, Option.some.injEq] at hmove
      exact .inl ⟨outcome, rfl, hmove.symm, rfl⟩
    | none =>
      simp only [haside] at hmove
      cases hreceive : w.link.toWorker.receive with
      | message m q =>
        simp only [hreceive, Option.some.injEq] at hmove
        exact .inr ⟨rfl, .inl ⟨m, q, rfl, hmove.symm, rfl⟩⟩
      | waiting =>
        rw [hreceive] at hmove
        cases hmove
      | ended =>
        simp only [hreceive, Option.some.injEq] at hmove
        exact .inr ⟨rfl, .inr ⟨rfl, hmove.symm, rfl⟩⟩
  · rw [if_neg hlistening] at hmove
    cases hmove

end WorkerSide
end WorkerHost
