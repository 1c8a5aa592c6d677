import WorkerHost.Proofs.Channel.Agreement
import WorkerHost.Proofs.Channel.Closing
import WorkerHost.Proofs.Channel.Hangup

/-!
# A channel whose ends close or go away

The two ends of a channel are joined by one link. Calls, answers, handlers, the closing of either
end and the loss of either end come in any order, each of them in its small steps.

* `WorkerSide.ThreadStep.toHost`: what a worker thread leaves alone that has lost its sender;
* `Joint.Step`, `Joint.Run`: what can happen at a joined channel;
* `Joint.Run.hostRun`, `Joint.Run.workerRun`: what each end sees of it;
* `Joint.Run.led`: the host's dispatcher stops at the end of its queue, and that is where it stays;
* `Joint.Run.strands_nobody`: every call that waits comes back, on both sides.
-/

namespace WorkerHost

/-- The two ends of a channel with the link between them, and whether each is still there. -/
structure Joint (σ HH WH β : Type) where
  host : HostSide HH
  thread : WorkerThread σ WH β
  state : σ
  hostThere : Bool
  workerThere : Bool

/-! ## What the ends do to the link -/

lemma HostSide.Own.handled {H : Type} {s s' : HostSide H} {more : List HostHeard}
    (h : s.Own more s') : s'.link = s.link ∨ s.link.Handled s'.link := by
  cases h with
  | send hc hstage hsend => exact .inr (.send hsend)
  | dispatch hp htaking hreceive => exact .inr (.take hreceive)
  | unplug => exact .inr .hangUp
  | leave => exact .inr .leave
  | refuse => exact .inl rfl
  | withdraw => exact .inl rfl
  | deliver => exact .inl rfl
  | stop => exact .inl rfl
  | shut => exact .inl rfl
  | drain => exact .inl rfl

/-- All that the host's side does to the link is what a holder of that end can do. -/
lemma HostSide.Step.handled {H : Type} {s s' : HostSide H} {more : List HostHeard}
    (h : s.Step more s') : s'.link = s.link ∨ s.link.Handled s'.link := by
  cases h with
  | own hown => exact hown.handled
  | answer m =>
    by_cases hjoined : s.link.toWorker.Joined
    · refine .inr ?_
      rw [HostEndpoint.post_of_joined hjoined]
      exact .send (Queue.send?_eq hjoined m)
    · exact .inl (HostEndpoint.post_of_not_joined hjoined m)
  | enter => exact .inl rfl
  | abandon => exact .inl rfl
  | flag => exact .inl rfl
  | manage => exact .inl rfl

namespace WorkerSide
variable {σ HH WH β : Type} [HasHeap σ] {w w' : WorkerSide σ WH β}

omit [HasHeap σ] in
/-- Nothing is sent to the host if one end of the queue is gone. -/
lemma Deed.toHost (h : Deed w w') (hgone : ¬ w.link.toHost.Joined) :
    w'.link.toHost = w.link.toHost := by
  cases h with
  | issue s target args hopen hjoined => exact absurd hjoined hgone
  | tell m hjoined => exact absurd hjoined hgone
  | turn => rfl
  | stack => rfl
  | settle => rfl
  | putAside => rfl
  | receive => rfl
  | hangUp => rfl

omit [HasHeap σ] in
lemma Deeds.toHost (h : Deeds w w') (hgone : ¬ w.link.toHost.Joined) :
    w'.link.toHost = w.link.toHost := by
  refine h.keep (P := fun u => u.link.toHost = w.link.toHost) (fun {u u'} hdeed hu => ?_) rfl
  exact (hdeed.toHost (by rwa [hu])).trans hu

/-- A thread that has lost its sender leaves the queue to the host as it is. -/
lemma ThreadStep.toHost {ps : WorkerPrograms σ WH} {more : List (Heard HH WH)}
    (h : ThreadStep ps w more w') (hgone : w.link.toHost.sending = false) :
    w'.link.toHost = w.link.toHost := by
  have hnot : ¬ w.link.toHost.Joined := fun hjoined => by simp [hjoined.sending] at hgone
  cases h with
  | move hmove => exact (deeds_move hmove).toHost hnot
  | start hrest task => exact (deeds_start _ task).toHost hnot
  | serve => rfl
  | close =>
    unfold WorkerSide.close
    split
    · rfl
    · show w.link.toHost.dropSender = w.link.toHost
      rw [Queue.dropSender, ← hgone]
  | manage => rfl
  | work => rfl

end WorkerSide

namespace Joint
variable {σ HH WH β : Type}

/-- What the worker thread has before it. -/
def worker (y : Joint σ HH WH β) : WorkerSide σ WH β :=
  ⟨y.thread, y.host.link, y.state⟩

def setWorker (y : Joint σ HH WH β) (w : WorkerSide σ WH β) : Joint σ HH WH β :=
  { y with host := { y.host with link := w.link }, thread := w.thread, state := w.state }

def setLink (y : Joint σ HH WH β) (l : Link) : Joint σ HH WH β :=
  { y with host := { y.host with link := l } }

/-- Two new ends at a new link. -/
def new (hostName workerName : String) (state : σ) : Joint σ HH WH β :=
  ⟨⟨.new hostName, .new, [], .before, .taking⟩, ⟨.new workerName, [], .idle⟩, state, true, true⟩

variable [HasHeap σ]

/-- What can happen at a joined channel, what it does to calls of the host and what the worker
thread hears of it. -/
inductive Step (ps : WorkerPrograms σ WH) :
    Joint σ HH WH β → List HostHeard → List (Heard HH WH) → Joint σ HH WH β → Prop where
  | host {y more s} (there : y.hostThere = true) (h : y.host.Step more s) :
      Step ps y more [] { y with host := s }
  | worker {y more w} (there : y.workerThere = true)
      (h : WorkerSide.ThreadStep ps y.worker more w) :
      Step ps y [] more (y.setWorker w)
  /-- the host goes away with all its tasks -/
  | hostGone {y} : Step ps y [] [] { y.setLink y.host.link.dropHost with hostThere := false }
  /-- the worker goes away with its thread -/
  | workerGone {y} : Step ps y [] [] { y.setLink y.host.link.dropWorker with workerThere := false }

/-- What happens from two new ends on, one step after another. -/
inductive Run (ps : WorkerPrograms σ WH) (hostName workerName : String) (state : σ) :
    Joint σ HH WH β → List HostHeard → List (Heard HH WH) → Prop where
  | new : Run ps hostName workerName state (.new hostName workerName state) [] []
  | step {y log heard more further y'} (before : Run ps hostName workerName state y log heard)
      (h : Step ps y more further y') :
      Run ps hostName workerName state y' (log ++ more) (heard ++ further)

/-- As long as an end is there it sees what becomes of the link. -/
lemma exists_seen {P : Link → Prop} {there : Bool} {l old new : Link} (h : P l)
    (hl : there = true → l = old) (hnew : P old → P new) :
    ∃ l, P l ∧ (there = true → l = new) := by
  cases there with
  | false => exact ⟨l, h, nofun⟩
  | true => exact ⟨new, hnew (hl rfl ▸ h), fun _ => rfl⟩

variable {ps : WorkerPrograms σ WH} {hostName workerName : String} {state : σ}
  {y : Joint σ HH WH β} {log : List HostHeard} {heard : List (Heard HH WH)}

/-- What the host's end has seen is a run of its own, up to what has become of the link after it was
gone. -/
lemma Run.hostRun (run : Run ps hostName workerName state y log heard) :
    ∃ l, HostSide.Run hostName { y.host with link := l } log ∧
      (y.hostThere = true → l = y.host.link) := by
  induction run with
  | new => exact ⟨.new, .new, fun _ => rfl⟩
  | @step y log heard more further y' before h ih =>
    obtain ⟨l, hrun, hl⟩ := ih
    cases h with
    | host there h =>
      rw [hl there] at hrun
      exact ⟨_, hrun.step h, fun _ => rfl⟩
    | worker there h =>
      rw [List.append_nil]
      exact exists_seen hrun hl fun before => before.peer h.keeps.1
    | hostGone =>
      rw [List.append_nil]
      exact ⟨l, hrun, nofun⟩
    | workerGone =>
      rw [List.append_nil]
      exact exists_seen hrun hl fun before => before.peer rfl

lemma Run.workerRun (run : Run ps hostName workerName state y log heard) :
    ∃ l, WorkerSide.PeerRun ps workerName state { y.worker with link := l } heard ∧
      (y.workerThere = true → l = y.host.link) := by
  induction run with
  | new => exact ⟨.new, .new, fun _ => rfl⟩
  | @step y log heard more further y' before h ih =>
    obtain ⟨l, hrun, hl⟩ := ih
    cases h with
    | @host _ s there h =>
      rw [List.append_nil]
      refine exists_seen hrun hl fun before => ?_
      show WorkerSide.PeerRun ps workerName state { y.worker with link := s.link } heard
      rcases h.handled with hsame | hhandled
      · rw [hsame]
        exact before
      · exact before.peer hhandled
    | worker there h =>
      rw [hl there] at hrun
      exact ⟨_, hrun.step h, fun _ => rfl⟩
    | hostGone =>
      rw [List.append_nil]
      exact exists_seen hrun hl fun before => (before.peer .hangUp).peer .leave
    | workerGone =>
      rw [List.append_nil]
      exact ⟨l, hrun, nofun⟩

/-- The dispatcher stops when its queue has come to an end, which nothing changes afterwards. -/
lemma Run.led (run : Run ps hostName workerName state y log heard) : y.host.Led := by
  induction run with
  | new => exact HostSide.led_new hostName
  | @step y log heard more further y' before h ih =>
    have hlink {l : Link}
        (hended : y.host.link.toHost.receive = .ended → l.toHost.receive = .ended) :
        (y.setLink l).host.Led :=
      ⟨fun hnot => hended (ih.ended hnot), ih.begun, ih.done⟩
    cases h with
    | host there h => exact ih.step h
    | @worker _ w there h =>
      refine hlink (l := w.link) fun hended => ?_
      rw [h.toHost (Queue.receive_eq_ended.1 hended).2]
      exact hended
    | hostGone =>
      exact hlink fun hended =>
        Queue.receive_eq_ended.2 ⟨rfl, (Queue.receive_eq_ended.1 hended).2⟩
    | workerGone =>
      exact hlink fun hended =>
        Queue.receive_eq_ended.2 ⟨(Queue.receive_eq_ended.1 hended).1, rfl⟩

end Joint

/-! ## The host's end -/

/-- What holds of the calls of the host at any moment, and what comes of them when the end closes or
the worker is gone. -/
structure HostSide.Teardown {H : Type} (s : HostSide H) (log : List HostHeard) : Prop where
  /-- a call is in the table or it has left it, and that once; it is under way or over, and that
  once -/
  once : (enteredIn log).Nodup ∧ (removedIn log ++ s.endpoint.pending).Perm (enteredIn log) ∧
    (overIn log ++ s.callers.map (·.id)).Perm (enteredIn log)
  /-- no call is rejected after an answer to it has been taken -/
  rejected : ∀ pre post id, log = pre ++ .rejected id :: post → answersTo id pre = []
  /-- no message is sent after the sender has been dropped -/
  sent : ∀ pre post id, log = pre ++ .sent id :: post → .unplugged ∉ pre
  /-- a call returns what it has been given, or that the channel is closed because its message could
  not be sent; it can only return the latter if no answer to it has been taken -/
  returned : ∀ pre post id o, log = pre ++ .returned id o :: post →
    Returns pre id o ∧ (answersTo id pre = [] → o = .error .closed)
  /-- at a closed end every call that waits has its outcome -/
  given : s.closing = .finished → ∀ c ∈ s.callers, c.stage = .waiting →
    ∃ o, c.slot = some o ∧ Given log c.id o ∧ (answersTo c.id log = [] → o = .error .closed)
  /-- a closed end has no entries but those of calls that are just being made -/
  empty : s.closing = .finished → (∀ c ∈ s.callers, c.stage = .waiting) → s.endpoint.pending = []
  /-- a call of a closed end leaves no entry, and returns that the channel is closed if its
  arguments can be packed -/
  later : s.closing = .finished → ∀ h target xs,
    s.endpoint.startCall s.link h target xs =
      match packArgs h xs with
      | .ok _ => (.error .closed, { s.endpoint with nextId := s.endpoint.nextId + 1 }, s.link)
      | .error err => (.error (.codec err), s.endpoint, s.link)
  /-- closing again changes nothing -/
  again : s.closing ≠ .before →
    s.endpoint.closed = true ∧ s.endpoint.close s.link = ([], s.endpoint, s.link)
  /-- at a closed end all calls that are under way can return by steps of their own -/
  comeBack : s.closing = .finished → ∃ more s', GoesOn s more s' ∧ s'.callers = [] ∧
    s'.endpoint.pending = [] ∧ ∀ c ∈ s.callers, ∃ o, .returned c.id o ∈ more
  /-- when the worker's sender is gone, then however it goes on without new calls: the tasks at the
  end have only so many steps to take, and until its messages are taken, the end is closed and all
  calls have returned there is always one of them to take -/
  gone : s.link.toHost.sending = false → ∀ n more s', Course s n more s' →
    n ≤ s.left ∧ ((∃ next u, Own s' next u) ∨
      s'.Over ∧ tookIn more = s.link.toHost.messages)
  /-- the dispatcher that finds the end of the worker's messages finishes the end -/
  finishes : s.dispatcher = .taking → s.link.toHost.receive = .ended →
    s.closing = .before ∨ s.closing = .finished → ∃ more, Steps s more
      { s with
        endpoint := (s.endpoint.finish s.link).2.1
        link := (s.endpoint.finish s.link).2.2
        callers := s.callers.map (.give (s.endpoint.finish s.link).1 (.error .closed))
        closing := .finished
        dispatcher := .done }

namespace HostSide
variable {H : Type} {s : HostSide H} {log : List HostHeard} {id : CallId} {o : CallOutcome}

lemma entered_of_answersTo (h : answersTo id log ≠ []) : id ∈ enteredIn log := by
  by_contra hnot
  have hnone : answersTo id (log ++ []) = answersTo id [] := answersTo_of_not_entered hnot
  rw [List.append_nil] at hnone
  exact h hnone

/-- What a call is given before any answer to it has been taken is that the channel is closed. -/
lemma Given.eq_closed (h : Given log id o) (htold : Told Right log)
    (hnone : answersTo id log = []) : o = .error .closed := by
  cases h with
  | closed hrejected => rfl
  | @answered _ h hresolved =>
    obtain ⟨pre, post, heq⟩ := List.append_of_mem hresolved
    obtain ⟨m, hp, hanswers, -⟩ : ∃ m hp, answersTo id pre = [(m, hp)] ∧ m.Carries hp o h :=
      htold pre _ post heq
    have hentered : id ∈ enteredIn pre := entered_of_answersTo (by rw [hanswers]; simp)
    rw [heq, answersTo_append hentered, hanswers] at hnone
    cases hnone

lemma Returns.eq_closed (h : Returns log id o) (htold : Told Right log)
    (hnone : answersTo id log = []) : o = .error .closed := by
  cases h with
  | given hsent hgiven => exact Given.eq_closed hgiven htold hnone
  | refused => rfl

lemma Sound.teardown (h : Sound s log) (hled : s.Led)
    (hbound : (enteredIn log).length ≤ 2 ^ 64) : s.Teardown log where
  once := ⟨h.table.numbered.nodup hbound, h.table.once, h.callers.once⟩
  rejected pre post id heq := h.told pre _ post heq
  sent pre post id heq := h.told pre _ post heq
  returned pre post id o heq := by
    have hreturns : Returns pre id o := h.told pre _ post heq
    have htold : Told Right pre := (heq ▸ h.told).left
    exact ⟨hreturns, hreturns.eq_closed htold⟩
  given hfinished c hc hstage := by
    obtain ⟨o, hslot, hgiven⟩ := h.exists_slot hfinished hc hstage
    exact ⟨o, hslot, hgiven, Given.eq_closed hgiven h.told⟩
  empty := h.pending_eq_nil
  later hfinished := HostEndpoint.startCall_of_not_joined (h.not_joined hfinished)
  again hclosing := by
    have hclosed := h.shut.flagged hclosing
    exact ⟨hclosed, HostEndpoint.close_of_closed hclosed s.link⟩
  comeBack hfinished := exists_returned h hfinished hbound
  gone hgone n more s' course := h.course hled hbound hgone course
  finishes htaking hended hclosing := by
    refine steps_of_finish htaking hended (hclosing.imp (fun hbefore => ?_) fun hfinished => ?_)
    · exact ⟨hbefore, (h.shut.before hbefore).1⟩
    · exact ⟨hfinished, h.shut.flagged (by rw [hfinished]; exact nofun)⟩

end HostSide

/-! ## The worker's end -/

/-- What holds of the calls of a worker thread at any moment, and what comes of them when the host's
sender is gone. -/
structure WorkerSide.Teardown {σ HH WH β : Type} [HasHeap σ] (ps : WorkerPrograms σ WH)
    (w : WorkerSide σ WH β) (log : List (Heard HH WH)) : Prop where
  /-- no answer has come for a call that waits, or one is put aside for it -/
  kept : ∀ id ∈ w.callIds, Kept w.endpoint log id
  /-- without the host's sender the thread comes to the end of what it does, by moves of its own -/
  rests : w.link.toWorker.sending = false →
    (w.advance ps w.left).callIds = [] ∧ (w.advance ps w.left).isListening = false ∧
    (w.thread.base.use = .serving → (w.advance ps w.left).thread.base = .ended) ∧
    (w.thread.base.use = .computing → ∃ b, (w.advance ps w.left).thread.base = .finished b)
  /-- with an empty queue, every call on the stack then returns the answer that is put aside for it,
  or else that the channel is closed -/
  returned : w.link.toWorker.sending = false → w.link.toWorker.messages = [] →
    ∃ more : List (Heard HH WH), Moves ps w more (w.advance ps w.left) ∧
      ((issuedIn (log ++ more)).length ≤ 2 ^ 64 → ∀ id ∈ w.callIds,
        .event (.ofWorker id (.completed ((w.endpoint.aside? id).getD (.error .closed)))) ∈ more)
  /-- once the end is closed, or the loop that serves or a call has come to an end because the host
  is gone, calls return that the channel is closed, and nothing is sent -/
  later : (w.endpoint.closed = true ∨ w.thread.base = .ended ∨
      ∃ id, .event (.ofWorker id (.completed (.error .closed))) ∈ log) →
    ∀ c, w.startCall c = (.error .closed, w)

namespace WorkerSide
variable {σ HH WH β : Type} [HasHeap σ] {ps : WorkerPrograms σ WH} {name : String} {state : σ}
  {w : WorkerSide σ WH β} {log : List (Heard HH WH)}

lemma PeerRun.teardown (run : PeerRun ps name state w log)
    (hbound : (issuedIn log).length ≤ 2 ^ 64) : w.Teardown ps log := by
  have hsound := run.sound hbound
  refine ⟨hsound.kept, fun hgone => ?_, fun hgone hempty => ?_, fun hover => ?_⟩
  · obtain ⟨hrest, more, hmoves⟩ :
        (w.advance ps w.left).isListening = false ∧
          ∃ more : List (Heard HH WH), Moves ps w more (w.advance ps w.left) :=
      exists_moves hgone le_rfl
    obtain ⟨hended, hfinished⟩ := base_of_not_listening hrest
    rw [hmoves.use] at hended hfinished
    exact ⟨(callIds_of_not_listening hrest).2, hrest, hended, hfinished⟩
  · obtain ⟨hrest, more, hmoves⟩ :
        (w.advance ps w.left).isListening = false ∧
          ∃ more : List (Heard HH WH), Moves ps w more (w.advance ps w.left) :=
      exists_moves hgone le_rfl
    exact ⟨more, hmoves, hmoves.returned hsound hempty hrest⟩
  · have hclosed : w.endpoint.closed = true := by
      rcases hover with hclosed | hbase | ⟨id, hreturned⟩
      · exact hclosed
      · exact run.closed_of_ended (run.ended_of_base hbase)
      · exact run.closed_of_ended (run.ended_of_completed hbound hreturned)
    exact startCall_of_closed hclosed

end WorkerSide

/-! ## Both ends -/

namespace Joint
variable {σ HH WH β : Type} [HasHeap σ] {ps : WorkerPrograms σ WH} {hostName workerName : String}
  {state : σ} {y : Joint σ HH WH β} {log : List HostHeard} {heard : List (Heard HH WH)}

/-- However the ends of a channel close or go away, at every moment of every run in which no number
is given twice: nobody waits for what will not come. -/
theorem Run.strands_nobody (run : Run ps hostName workerName state y log heard)
    (hentered : (enteredIn log).length ≤ 2 ^ 64) (hissued : (issuedIn heard).length ≤ 2 ^ 64) :
    (y.hostThere = true → y.host.Teardown log) ∧
      (y.workerThere = true → y.worker.Teardown ps heard) := by
  obtain ⟨l, hhost, hl⟩ := run.hostRun
  obtain ⟨l', hworker, hl'⟩ := run.workerRun
  constructor
  · intro there
    rw [hl there] at hhost
    exact (hhost.sound hentered).teardown run.led hentered
  · intro there
    rw [hl' there] at hworker
    exact hworker.teardown hissued

/-- The worker waits for a call and the host for another one, and a second call of the host comes
between the dropping of its sender and the emptying of its table. -/
theorem Run.strands_nobody_lateCall :
    ∃ (y : Joint Heap Unit Unit Unit) (log : List HostHeard) (heard : List (Heard Unit Unit)),
      Run Pair.nullPrograms "host" "worker" .empty y log heard ∧
      (enteredIn log).length ≤ 2 ^ 64 ∧ (issuedIn heard).length ≤ 2 ^ 64 ∧
      y.host.closing = .finished ∧ y.host.callers.map (·.id) = [⟨1⟩, ⟨2⟩] ∧
      y.worker.link.toWorker = { Queue.new with sending := false } ∧ y.worker.callIds = [⟨1⟩] ∧
      y.hostThere = true ∧ y.workerThere = true ∧
      y.host.Teardown log ∧ y.worker.Teardown Pair.nullPrograms heard := by
  obtain ⟨args, hpack⟩ := Pair.exists_packArgs_nil .empty
  let y₀ : Joint Heap Unit Unit Unit := .new "host" "worker" .empty
  have hopen : y₀.worker.Open := ⟨rfl, rfl, rfl, rfl, rfl⟩
  have hstarted : Run Pair.nullPrograms "host" "worker" .empty
      (y₀.setWorker (y₀.worker.start Pair.ping)) ([] ++ [])
      ([] ++ (y₀.worker.baseEvents (Pair.ping y₀.worker.state)).map Heard.event :
        List (Heard Unit Unit)) :=
    .step .new (.worker rfl (.start rfl Pair.ping))
  rw [Pair.baseEvents_ping hopen hpack, Pair.start_ping hopen hpack] at hstarted
  have hfirst := hstarted.step (.host rfl (.enter (.method "first") hpack))
  have hsent := hfirst.step (.host rfl (.own (.send (show _ = [] ++ [_] from rfl) rfl rfl)))
  have hflagged := hsent.step (.host rfl (.flag rfl))
  have hunplugged := hflagged.step (.host rfl (.own (.unplug rfl)))
  have hsecond := hunplugged.step (.host rfl (.enter (.method "second") hpack))
  have hrefused := hsecond.step (.host rfl (.own (.refuse (show _ = [_] ++ [_] from rfl) rfl rfl)))
  have hdrained := hrefused.step (.host rfl (.own (.drain rfl)))
  have htaken := hdrained.step (.worker rfl (.move rfl))
  have hentered (ids : List CallId) (hids : ids = [⟨1⟩, ⟨2⟩]) : ids.length ≤ 2 ^ 64 := by
    rw [hids]
    norm_num
  have hissued (ids : List CallId) (hids : ids = [⟨1⟩]) : ids.length ≤ 2 ^ 64 := by
    rw [hids]
    exact Nat.one_le_two_pow
  obtain ⟨hhost, hworker⟩ := htaken.strands_nobody (hentered _ rfl) (hissued _ rfl)
  exact ⟨_, _, _, htaken, hentered _ rfl, hissued _ rfl, rfl, rfl, rfl, rfl, rfl, rfl, hhost rfl,
    hworker rfl⟩

/-- Not every late call returns that the channel is closed and sends nothing: arguments are packed
before a call of the host finds out, and a worker finds out by looking at its queue. -/
theorem not_every_late_call_refused :
    ∃ (y : Joint Heap Unit Unit Unit) (log : List HostHeard) (heard : List (Heard Unit Unit)),
      Run Pair.nullPrograms "host" "worker" .empty y log heard ∧ y.host.closing = .finished ∧
      y.worker.link.toWorker = { Queue.new with sending := false } ∧
      (y.host.endpoint.startCall y.host.link .empty (.method "m")
        [.function ⟨0, "f", .nothing⟩]).1 ≠ .error .closed ∧
      (y.worker.startCall ⟨.method "m", []⟩).2.link.toHost.messages ≠
        y.worker.link.toHost.messages := by
  obtain ⟨args, hpack⟩ := Pair.exists_packArgs_nil .empty
  obtain ⟨e, herror⟩ : ∃ e, packArgs .empty [.function ⟨0, "f", .nothing⟩] = .error e :=
    packArgs_eq_error List.mem_cons_self .refl
  have hnew : Run Pair.nullPrograms "host" "worker" .empty
      (.new "host" "worker" .empty : Joint Heap Unit Unit Unit) [] [] := .new
  have hflagged := hnew.step (.host rfl (.flag rfl))
  have hunplugged := hflagged.step (.host rfl (.own (.unplug rfl)))
  have hdrained := hunplugged.step (.host rfl (.own (.drain rfl)))
  have hsends (w : WorkerSide Heap Unit Unit) (hstate : w.state = .empty)
      (hclosed : w.endpoint.closed = false) (hjoined : w.link.toHost.Joined) :
      (w.startCall ⟨.method "m", []⟩).2.link.toHost.messages ≠ w.link.toHost.messages := by
    have hpack' : packArgs w.state [] = .ok args := hstate ▸ hpack
    rw [WorkerSide.startCall_eq_issue (c := ⟨.method "m", []⟩) hclosed hjoined hpack']
    simp [WorkerSide.issue, Link.tell, Queue.push]
  refine ⟨_, _, _, hdrained, rfl, rfl, ?_, hsends _ rfl rfl ⟨rfl, rfl⟩⟩
  simp [HostEndpoint.startCall, herror]

end Joint
end WorkerHost
