import WorkerHost.Proofs.Channel.Peer

/-!
# The calls of the host in small steps

Many tasks of the host call at the same time, and meanwhile answers arrive and the end is closed. A
call enters the table of pending calls, it sends its message, and it waits for its outcome; closing
sets a flag, drops the sender and empties the table. The dispatcher takes the worker's messages, and
when they have come to an end it closes the end itself. Each of these is a step of its own, so the
log shows them in every order. Nothing is assumed of whoever holds the worker's end.

* `HostEndpoint.dispatch_cases`: a message is a call, or it answers one that is pending, or none;
* `HostSide.Own`, `HostSide.Step`, `HostSide.Run`: what the tasks at the host's end do by
  themselves, and what can happen there;
* `HostSide.steps_of_startCall`, `HostSide.steps_of_close`, `HostSide.steps_of_finish`: calling and
  closing in one go are steps of this kind, one after another.
-/

namespace WorkerHost

/-! ## Small steps of the endpoint -/

namespace HostEndpoint
variable {H : Type}

/-- The entry of a call is taken out. -/
def remove (e : HostEndpoint H) (id : CallId) : HostEndpoint H :=
  { e with pending := e.pending.filter (· != id) }

/-- No more calls are to be made. -/
def flag (e : HostEndpoint H) : HostEndpoint H :=
  { e with closed := true }

/-- All entries are taken out. -/
def drain (e : HostEndpoint H) : HostEndpoint H :=
  { e with pending := [] }

/-- All that is left of a call that enters the table and leaves it again is a number. -/
lemma remove_enter {e : HostEndpoint H} (hfresh : ⟨e.nextId⟩ ∉ e.pending) :
    e.enter.remove ⟨e.nextId⟩ = { e with nextId := e.nextId + 1 } := by
  simp only [enter, remove, List.filter_append, filter_ne_of_not_mem hfresh]
  rw [List.filter_cons_of_neg (by simp), List.filter_nil, List.append_nil]

/-- A call enters the table and sends its message; it leaves the table again if no link takes it. -/
lemma startCall_eq_steps {e : HostEndpoint H} {link : Link} {h : Heap} {target : Target}
    {xs : List Value} {args : Wire} (hpack : packArgs h xs = .ok args)
    (hfresh : ⟨e.nextId⟩ ∉ e.pending) :
    e.startCall link h target xs =
      match link.toWorker.send? (.call ⟨e.nextId⟩ target args) with
      | some q => (.ok ⟨e.nextId⟩, e.enter, { link with toWorker := q })
      | none => (.error .closed, e.enter.remove ⟨e.nextId⟩, link) := by
  simp only [startCall, hpack, remove_enter hfresh]
  cases link.toWorker.send? (.call ⟨e.nextId⟩ target args) with
  | none => rfl
  | some q => rfl

/-- Closing sets the flag, drops the sender and empties the table. -/
lemma close_eq_steps {e : HostEndpoint H} (hopen : e.closed = false) (link : Link) :
    e.close link =
      (e.pending, e.flag.drain, { link with toWorker := link.toWorker.dropSender }) := by
  unfold close
  rw [if_neg (by simp [hopen])]
  rfl

lemma close_of_closed {e : HostEndpoint H} (hclosed : e.closed = true) (link : Link) :
    e.close link = ([], e, link) :=
  if_pos hclosed

/-- The end of the worker's messages closes an open end, and the queue loses its receiver. -/
lemma finish_eq_steps {e : HostEndpoint H} (hopen : e.closed = false) (link : Link) :
    e.finish link = (e.pending, { e.flag.drain with dispatching := false },
      ⟨link.toWorker.dropSender, link.toHost.dropReceiver⟩) := by
  rw [finish, close_eq_steps hopen]

lemma post_sending (link : Link) (m : Message) :
    (post link m).toWorker.sending = link.toWorker.sending := by
  by_cases hjoined : link.toWorker.Joined
  · rw [post_of_joined hjoined]
    rfl
  · rw [post_of_not_joined hjoined]

/-- Managing handlers and handles neither closes the end nor stops its dispatching. -/
lemma Managed.closed {e e' : HostEndpoint H} (h : e.Managed e') :
    e'.closed = e.closed ∧ e'.dispatching = e.dispatching := by
  cases h with
  | register h =>
    obtain ⟨hs, -, h⟩ := bind_eq_ok.1 h
    cases h
    exact ⟨rfl, rfl⟩
  | unregister => exact ⟨rfl, rfl⟩
  | expose => exact ⟨rfl, rfl⟩
  | release => exact ⟨rfl, rfl⟩

/-- An answer that no entry is there for is read, and that is all. -/
lemma dispatch_unknown {e : HostEndpoint H} {m : Message} (hm : m.isAnswer = true)
    (hid : m.id ∉ e.pending) (h : Heap) :
    ∃ o h', m.Carries h o h' ∧ e.dispatch h m = (.unknown, e, h') := by
  obtain ⟨o, h', ho⟩ := Message.exists_outcome hm h
  refine ⟨o, h', Message.carries_of_outcome ho, ?_⟩
  have hcontains : ¬ e.pending.contains m.id = true := by
    rw [List.contains_iff_mem]
    exact hid
  cases m with
  | call => cases hm
  | reply => simp only [dispatch, ho, if_neg hcontains]
  | fail => simp only [dispatch, ho, if_neg hcontains]

/-- A message is a call of the worker, or the outcome of a call that is pending, or for nobody. -/
lemma dispatch_cases (e : HostEndpoint H) (h : Heap) (m : Message) :
    (m.isAnswer = false ∧ ∃ id target args, e.dispatch h m = (.inbound id target args, e, h)) ∨
    (m.isAnswer = true ∧ m.id ∈ e.pending ∧ ∃ o h', m.Carries h o h' ∧
      e.dispatch h m = (.resolved m.id o, e.remove m.id, h')) ∨
    (m.isAnswer = true ∧ m.id ∉ e.pending ∧ ∃ h', e.dispatch h m = (.unknown, e, h')) := by
  by_cases hm : m.isAnswer = true
  · right
    by_cases hid : m.id ∈ e.pending
    · obtain ⟨o, h', ho⟩ := Message.exists_outcome hm h
      exact .inl ⟨hm, hid, o, h', Message.carries_of_outcome ho, dispatch_eq ho hid⟩
    · obtain ⟨o, h', -, hdispatch⟩ := dispatch_unknown hm hid h
      exact .inr ⟨hm, hid, h', hdispatch⟩
  · left
    cases m with
    | call id target args => exact ⟨rfl, id, target, args, rfl⟩
    | reply => exact absurd rfl hm
    | fail => exact absurd rfl hm

end HostEndpoint

/-! ## Callers -/

/-- How far a call of the host has come. -/
inductive CallStage where
  /-- it has an entry, and this is its message -/
  | entered (m : Message)
  /-- its message is sent, and it waits for its outcome -/
  | waiting
  /-- no link has taken its message -/
  | refused

/-- A task that is making a call, with the outcome that it has been given. -/
structure Caller where
  id : CallId
  stage : CallStage
  slot : Option CallOutcome

/-- How far closing the end has come. -/
inductive Closing where
  | before
  /-- the flag is set -/
  | flagged
  /-- the sender is dropped too -/
  | unplugged
  /-- the table has been emptied -/
  | finished

/-- How far the dispatcher has come, the task that takes the worker's messages. -/
inductive Dispatcher where
  | taking
  /-- it has found that no more will come -/
  | stopped
  /-- it is closing the end -/
  | shutting
  | done

/-- The host's end with the tasks that are making calls, and the dispatcher. -/
structure HostSide (H : Type) where
  endpoint : HostEndpoint H
  link : Link
  callers : List Caller
  closing : Closing
  dispatcher : Dispatcher

/-- What happens to calls of the host. -/
inductive HostHeard where
  /-- a call enters the table -/
  | entered (id : CallId)
  /-- its message is sent -/
  | sent (id : CallId)
  /-- a message is taken off the queue and read in a heap -/
  | took (m : Message) (heap : Heap)
  /-- the entry of a call is taken out with the outcome of an answer, which lives in a heap -/
  | resolved (id : CallId) (outcome : CallOutcome) (heap : Heap)
  /-- the entry of a call is taken out because the end closes -/
  | rejected (id : CallId)
  /-- the entry of a call is taken out because its message could not be sent -/
  | withdrawn (id : CallId)
  | returned (id : CallId) (outcome : CallOutcome)
  /-- nobody waits for a call any more -/
  | abandoned (id : CallId)
  /-- the sender is dropped -/
  | unplugged

namespace HostHeard

def enters (id : CallId) : HostHeard → Bool
  | entered a => a == id
  | _ => false

def entered? : HostHeard → Option CallId
  | entered id => some id
  | _ => none

/-- The call whose entry is taken out. -/
def removed? : HostHeard → Option CallId
  | resolved id _ _ | rejected id | withdrawn id => some id
  | _ => none

/-- The call that nobody waits for any more. -/
def over? : HostHeard → Option CallId
  | returned id _ | abandoned id => some id
  | _ => none

/-- Whether it is that a call is sent or that the end closes. -/
def stirs : HostHeard → Bool
  | sent _ | rejected _ | unplugged => true
  | _ => false

/-- The answer to a call that is taken, with the heap that it is read in. -/
def answerTo? (id : CallId) : HostHeard → Option (Message × Heap)
  | took m h => if m.isAnswer = true ∧ m.id = id then some (m, h) else none
  | _ => none

end HostHeard

/-- The calls that have been made, in the order of their numbers. -/
def enteredIn (log : List HostHeard) : List CallId :=
  log.filterMap HostHeard.entered?

/-- The calls that have left the table. -/
def removedIn (log : List HostHeard) : List CallId :=
  log.filterMap HostHeard.removed?

/-- The calls that nobody waits for any more. -/
def overIn (log : List HostHeard) : List CallId :=
  log.filterMap HostHeard.over?

/-- The answers to a call that have been taken since it entered the table, with the heaps that they
have been read in. -/
def answersTo (id : CallId) (log : List HostHeard) : List (Message × Heap) :=
  since (HostHeard.enters id) (HostHeard.answerTo? id) log

section
variable {log more : List HostHeard} {id : CallId}

@[simp] lemma enteredIn_append : enteredIn (log ++ more) = enteredIn log ++ enteredIn more :=
  List.filterMap_append

@[simp] lemma removedIn_append : removedIn (log ++ more) = removedIn log ++ removedIn more :=
  List.filterMap_append

@[simp] lemma overIn_append : overIn (log ++ more) = overIn log ++ overIn more :=
  List.filterMap_append

lemma mem_enteredIn : id ∈ enteredIn log ↔ .entered id ∈ log := by
  rw [enteredIn, List.mem_filterMap]
  constructor
  · rintro ⟨x, hx, hid⟩
    cases x <;> cases hid
    exact hx
  · intro h
    exact ⟨_, h, rfl⟩

lemma mem_removedIn : id ∈ removedIn log ↔
    (∃ o h, .resolved id o h ∈ log) ∨ .rejected id ∈ log ∨ .withdrawn id ∈ log := by
  rw [removedIn, List.mem_filterMap]
  constructor
  · rintro ⟨x, hx, hid⟩
    cases x <;> cases hid
    · exact .inl ⟨_, _, hx⟩
    · exact .inr (.inl hx)
    · exact .inr (.inr hx)
  · rintro (⟨o, h, hx⟩ | hx | hx)
    · exact ⟨_, hx, rfl⟩
    · exact ⟨_, hx, rfl⟩
    · exact ⟨_, hx, rfl⟩

lemma exists_enters : (∃ x ∈ log, x.enters id = true) ↔ id ∈ enteredIn log := by
  rw [mem_enteredIn]
  constructor
  · rintro ⟨x, hx, hid⟩
    cases x with
    | entered a =>
      rw [HostHeard.enters, beq_iff_eq] at hid
      exact hid ▸ hx
    | _ => cases hid
  · intro h
    exact ⟨_, h, beq_self_eq_true id⟩

/-- A call in the table goes on collecting answers. -/
lemma answersTo_append (hid : id ∈ enteredIn log) :
    answersTo id (log ++ more) = answersTo id log ++ more.filterMap (HostHeard.answerTo? id) :=
  since_append_of_mem (exists_enters.2 hid)

/-- What is taken before a call enters the table is no answer to it. -/
lemma answersTo_of_not_entered (hid : id ∉ enteredIn log) :
    answersTo id (log ++ more) = answersTo id more :=
  since_append_of_not_mem (mt exists_enters.1 hid)

end

/-! ## Steps -/

/-- A caller is given an outcome if it waits under one of these numbers. -/
def Caller.give (ids : List CallId) (o : CallOutcome) (c : Caller) : Caller :=
  if c.id ∈ ids then { c with slot := some o } else c

@[simp] lemma Caller.id_give (ids : List CallId) (o : CallOutcome) (c : Caller) :
    (c.give ids o).id = c.id := by
  unfold give
  split <;> rfl

@[simp] lemma Caller.stage_give (ids : List CallId) (o : CallOutcome) (c : Caller) :
    (c.give ids o).stage = c.stage := by
  unfold give
  split <;> rfl

namespace HostSide
variable {H : Type}

/-- The host takes a message and reads it in a heap. -/
def take (s : HostSide H) (h : Heap) (m : Message) : List HostHeard × HostSide H :=
  match s.endpoint.dispatch h m with
  | (.resolved id o, e, h') =>
    ([.took m h, .resolved id o h'],
      { s with endpoint := e, callers := s.callers.map (.give [id] o) })
  | (_, e, _) => ([.took m h], { s with endpoint := e })

/-- What is heard when a call gives up its entry, if it still has one. -/
def withdrawal (s : HostSide H) (id : CallId) : List HostHeard :=
  if id ∈ s.endpoint.pending then [.withdrawn id] else []

/-- What the tasks at the host's end do by themselves: those that are making calls, the dispatcher,
and whoever is closing the end. -/
inductive Own : HostSide H → List HostHeard → HostSide H → Prop where
  | send {s front c back m q} (hc : s.callers = front ++ c :: back)
      (hstage : c.stage = .entered m) (hsend : s.link.toWorker.send? m = some q) :
      Own s [.sent c.id]
        { s with
          link := { s.link with toWorker := q }
          callers := front ++ { c with stage := .waiting } :: back }
  | refuse {s front c back m} (hc : s.callers = front ++ c :: back)
      (hstage : c.stage = .entered m) (hsend : s.link.toWorker.send? m = none) :
      Own s [] { s with callers := front ++ { c with stage := .refused } :: back }
  /-- a call whose message could not be sent takes its entry out and returns -/
  | withdraw {s front c back} (hc : s.callers = front ++ c :: back) (hstage : c.stage = .refused) :
      Own s (s.withdrawal c.id ++ [.returned c.id (.error .closed)])
        { s with endpoint := s.endpoint.remove c.id, callers := front ++ back }
  /-- a call returns with the outcome that it has been given -/
  | deliver {s front c back o} (hc : s.callers = front ++ c :: back) (hstage : c.stage = .waiting)
      (hslot : c.slot = some o) : Own s [.returned c.id o] { s with callers := front ++ back }
  | dispatch {s m q} (h : Heap) (htaking : s.dispatcher = .taking)
      (hreceive : s.link.toHost.receive = .message m q) :
      Own s (s.take h m).1 { (s.take h m).2 with link := { s.link with toHost := q } }
  /-- the dispatcher finds that the worker's messages have come to an end -/
  | stop {s} (htaking : s.dispatcher = .taking) (hended : s.link.toHost.receive = .ended) :
      Own s [] { s with dispatcher := .stopped }
  /-- it begins to close the end, if nobody else has -/
  | shut {s} (hstopped : s.dispatcher = .stopped) (hopen : s.closing = .before) :
      Own s [] { s with
        endpoint := s.endpoint.flag, closing := .flagged, dispatcher := .shutting }
  | unplug {s} (h : s.closing = .flagged) :
      Own s [.unplugged]
        { s with
          link := { s.link with toWorker := s.link.toWorker.dropSender }
          closing := .unplugged }
  | drain {s} (h : s.closing = .unplugged) :
      Own s (s.endpoint.pending.map .rejected)
        { s with
          endpoint := s.endpoint.drain
          callers := s.callers.map (.give s.endpoint.pending (.error .closed))
          closing := .finished }
  /-- the dispatcher is over when it has closed the end, or at once if another has begun to -/
  | leave {s}
      (h : s.dispatcher = .stopped ∧ s.closing ≠ .before ∨
        s.dispatcher = .shutting ∧ s.closing = .finished) :
      Own s []
        { s with
          endpoint := { s.endpoint with dispatching := false }
          link := { s.link with toHost := s.link.toHost.dropReceiver }
          dispatcher := .done }

/-- What can happen on the host's side, and what it does to calls. -/
inductive Step : HostSide H → List HostHeard → HostSide H → Prop where
  | own {s more s'} (h : Own s more s') : Step s more s'
  /-- a call whose arguments can be packed enters the table -/
  | enter {s h xs args} (target : Target) (hpack : packArgs h xs = .ok args) :
      Step s [.entered ⟨s.endpoint.nextId⟩]
        { s with
          endpoint := s.endpoint.enter
          callers := s.callers ++ [⟨⟨s.endpoint.nextId⟩,
            .entered (.call ⟨s.endpoint.nextId⟩ target args), none⟩] }
  /-- whoever waits for a call stops waiting -/
  | abandon {s front c back} (hc : s.callers = front ++ c :: back) (hstage : c.stage = .waiting) :
      Step s [.abandoned c.id] { s with callers := front ++ back }
  /-- somebody begins to close the end -/
  | flag {s} (h : s.closing = .before) :
      Step s [] { s with endpoint := s.endpoint.flag, closing := .flagged }
  /-- a task that serves a call of the worker sends the answer -/
  | answer {s} (m : Message) : Step s [] { s with link := HostEndpoint.post s.link m }
  | manage {s e} (h : s.endpoint.Managed e) : Step s [] { s with endpoint := e }

/-- What happens from a new end on, one step after another, while whoever holds the other end does
what it likes: it has no hold on the host's sender, that is all. -/
inductive Run (name : String) : HostSide H → List HostHeard → Prop where
  | new : Run name ⟨.new name, .new, [], .before, .taking⟩ []
  | step {s log more s'} (before : Run name s log) (h : Step s more s') : Run name s' (log ++ more)
  | peer {s log l} (before : Run name s log)
      (h : l.toWorker.sending = s.link.toWorker.sending) : Run name { s with link := l } log

variable {s s' s'' : HostSide H} {log more rest : List HostHeard}

/-! ## Sequences of steps -/

/-- What happens on the host's side, one step after another. -/
inductive Steps : HostSide H → List HostHeard → HostSide H → Prop where
  | stop (a : HostSide H) : Steps a [] a
  | step {a b d : HostSide H} {first later} (h : Step a first b) (after : Steps b later d) :
      Steps a (first ++ later) d

lemma Own.steps (h : Own s more s') : Steps s more s' := by
  have hsteps := Steps.step (.own h) (.stop s')
  rwa [List.append_nil] at hsteps

lemma Steps.append (h : Steps s more s') (h' : Steps s' rest s'') :
    Steps s (more ++ rest) s'' := by
  induction h with
  | stop => exact h'
  | step hstep later ih =>
    rw [List.append_assoc]
    exact .step hstep (ih h')

lemma Steps.run {name : String} (steps : Steps s more s') (before : Run name s log) :
    Run name s' (log ++ more) := by
  induction steps generalizing log with
  | stop =>
    rw [List.append_nil]
    exact before
  | step hstep later ih =>
    rw [← List.append_assoc]
    exact ih (before.step hstep)

/-! ## Calling and closing in one go -/

/-- A call that is sent has taken two steps. -/
lemma steps_of_startCall {h : Heap} {target : Target} {xs : List Value} {id : CallId}
    {e : HostEndpoint H} {l : Link}
    (hcall : s.endpoint.startCall s.link h target xs = (.ok id, e, l)) :
    Steps s [.entered id, .sent id]
      { s with endpoint := e, link := l, callers := s.callers ++ [⟨id, .waiting, none⟩] } := by
  unfold HostEndpoint.startCall at hcall
  cases hpack : packArgs h xs with
  | error err =>
    rw [hpack] at hcall
    cases hcall
  | ok args =>
    simp only [hpack] at hcall
    cases hsend : s.link.toWorker.send? (.call ⟨s.endpoint.nextId⟩ target args) with
    | none =>
      rw [hsend] at hcall
      cases hcall
    | some q =>
      rw [hsend] at hcall
      cases hcall
      let u : HostSide H :=
        { s with
          endpoint := s.endpoint.enter
          callers := s.callers ++ [⟨⟨s.endpoint.nextId⟩,
            .entered (.call ⟨s.endpoint.nextId⟩ target args), none⟩] }
      have hcallers : u.callers = s.callers ++ ⟨⟨s.endpoint.nextId⟩,
        .entered (.call ⟨s.endpoint.nextId⟩ target args), none⟩ :: [] := rfl
      exact .step (.enter target hpack) (Own.send hcallers rfl hsend).steps

/-- A call that no link takes has taken its entry out again. -/
lemma steps_of_startCall_closed {h : Heap} {target : Target} {xs : List Value} {args : Wire}
    {e : HostEndpoint H} {l : Link} (hpack : packArgs h xs = .ok args)
    (hfresh : ⟨s.endpoint.nextId⟩ ∉ s.endpoint.pending)
    (hcall : s.endpoint.startCall s.link h target xs = (.error .closed, e, l)) :
    Steps s
      [.entered ⟨s.endpoint.nextId⟩, .withdrawn ⟨s.endpoint.nextId⟩,
        .returned ⟨s.endpoint.nextId⟩ (.error .closed)]
      { s with endpoint := e, link := l } := by
  rw [HostEndpoint.startCall_eq_steps hpack hfresh] at hcall
  cases hsend : s.link.toWorker.send? (.call ⟨s.endpoint.nextId⟩ target args) with
  | some q =>
    rw [hsend] at hcall
    cases hcall
  | none =>
    rw [hsend] at hcall
    cases hcall
    let u (stage : CallStage) : HostSide H :=
      { s with
        endpoint := s.endpoint.enter
        callers := s.callers ++ [⟨⟨s.endpoint.nextId⟩, stage, none⟩] }
    have hcallers (stage : CallStage) :
        (u stage).callers = s.callers ++ ⟨⟨s.endpoint.nextId⟩, stage, none⟩ :: [] := rfl
    have hentry : (u .refused).withdrawal ⟨s.endpoint.nextId⟩ = [.withdrawn ⟨s.endpoint.nextId⟩] :=
      if_pos (List.mem_append_right _ (List.mem_singleton_self _))
    have hsteps := Steps.step (.enter target hpack) (.step (.own (.refuse (hcallers _) rfl hsend))
      (Own.withdraw (hcallers .refused) rfl).steps)
    rw [hentry, List.append_nil] at hsteps
    exact hsteps

/-- Closing an open end takes three steps. -/
lemma steps_of_close (hclosing : s.closing = .before) (hopen : s.endpoint.closed = false) :
    Steps s (.unplugged :: s.endpoint.pending.map .rejected)
      { s with
        endpoint := (s.endpoint.close s.link).2.1
        link := (s.endpoint.close s.link).2.2
        callers := s.callers.map (.give (s.endpoint.close s.link).1 (.error .closed))
        closing := .finished } := by
  rw [HostEndpoint.close_eq_steps hopen]
  exact .step (.flag hclosing) (.step (.own (.unplug rfl)) (Own.drain rfl).steps)

/-- When the worker's messages have come to an end, the dispatcher does what finishing the end does,
whether it finds it open or closed. -/
lemma steps_of_finish (htaking : s.dispatcher = .taking)
    (hended : s.link.toHost.receive = .ended)
    (hclosing : s.closing = .before ∧ s.endpoint.closed = false ∨
      s.closing = .finished ∧ s.endpoint.closed = true) :
    ∃ more, Steps s more
      { s with
        endpoint := (s.endpoint.finish s.link).2.1
        link := (s.endpoint.finish s.link).2.2
        callers := s.callers.map (.give (s.endpoint.finish s.link).1 (.error .closed))
        closing := .finished
        dispatcher := .done } := by
  let u : HostSide H := { s with dispatcher := .stopped }
  have hstop : Steps s [] u := (Own.stop htaking hended).steps
  rcases hclosing with ⟨hbefore, hopen⟩ | ⟨hfinished, hclosed⟩
  · have hshut : Own u [] _ := .shut rfl hbefore
    have hclose := (hstop.append hshut.steps).append
      (.step (.own (.unplug rfl)) (Own.drain rfl).steps)
    rw [HostEndpoint.finish_eq_steps hopen]
    exact ⟨_, hclose.append (Own.leave (.inr ⟨rfl, rfl⟩)).steps⟩
  · have hnobody : s.callers.map (.give [] (.error .closed)) = s.callers := by
      refine (List.map_congr_left fun c _ => ?_).trans (List.map_id _)
      exact if_neg List.not_mem_nil
    have hleave : Own u [] _ := .leave (.inl ⟨rfl, by
      show s.closing ≠ .before
      rw [hfinished]
      exact nofun⟩)
    rw [HostEndpoint.finish, HostEndpoint.close_of_closed hclosed]
    simp only [hnobody, ← hfinished]
    exact ⟨_, hstop.append hleave.steps⟩

end HostSide
end WorkerHost
