import WorkerHost.Proofs.Channel.Balance
import WorkerHost.Proofs.Channel.Handlers
import WorkerHost.Proofs.Channel.Opened

/-!
# Agreement of the two ends of a channel

Every operation of either end keeps the two flows of a pair balanced: it takes calls in hand, moves
them on one at a time, and puts them down again. So they are balanced along every run, and what a
balanced flow says of a call holds at every moment.

* `Step.balanced`, `Run.balanced`: the balance is kept by every step and along every run;
* `Step.tied`, `Run.tied`: so are the ties between the calls of the host and the handlers'
  computations;
* `Run.ends_agree`: where every call is, how often each thing happens to it, what its outcome is.
-/

namespace WorkerHost
namespace Pair
variable {σ HH WH β : Type} [HasHeap σ] {c : Pair σ HH WH β} {x y : Multiset (CallId × Token)}
  {log : List (Event HH WH)} {id : CallId}

/-! ## The worker thread -/

/-- A handler's computation sends its outcome, or it waits on the stack. -/
lemma Balanced.handler (h : Balanced c {(id, .handled)} 0 log)
    (step : WorkerStep σ (Except RemoteError Value))
    (hbound : Bounded (log ++ c.worker.handlerEvents id step)) :
    Balanced { c with worker := c.worker.runHandler id step } 0 0
      (log ++ c.worker.handlerEvents id step) := by
  unfold WorkerSide.handlerEvents at hbound ⊢
  unfold WorkerSide.runHandler
  have hran := c.worker.runStep_ran h.opened step
  generalize c.worker.runStep step = r at hran hbound
  cases hran with
  | ended result s =>
    have hs : Balanced { c with worker := { c.worker with state := s } } {(id, .handled)} 0 log :=
      h.congr ⟨h.opened.endpoint, h.opened.link⟩ rfl rfl
    obtain ⟨hcall, hanswer⟩ := answerTo_tokens (HasHeap.heap s) id result
    exact (hs.advanceHost .answer).postWorker hcall hanswer
  | blocked call s args resume hpack =>
    have hissue := h.issueWorker (s := s) hpack hbound
    refine hissue.congr ⟨hissue.opened.endpoint, hissue.opened.link⟩ ?_ rfl
    simp only [hostFlow, WorkerSide.issue, List.map_cons, handledTokens_cons]
    congr 1
    rw [← Multiset.singleton_add]
    abel

/-- A computation of the thread's own is nobody's call. -/
lemma Balanced.base (h : Balanced c 0 0 log) (step : WorkerStep σ β)
    (hbound : Bounded (log ++ c.worker.baseEvents step)) :
    Balanced { c with worker := c.worker.runBase step } 0 0 (log ++ c.worker.baseEvents step) := by
  unfold WorkerSide.baseEvents at hbound ⊢
  unfold WorkerSide.runBase
  have hran := c.worker.runStep_ran h.opened step
  generalize c.worker.runStep step = r at hran hbound
  cases hran with
  | ended b s =>
    rw [List.append_nil]
    exact h.congr ⟨h.opened.endpoint, h.opened.link⟩ rfl rfl
  | blocked call s args resume hpack =>
    have hissue := h.issueWorker (s := s) hpack hbound
    exact hissue.congr ⟨hissue.opened.endpoint, hissue.opened.link⟩ rfl rfl

/-- An inbound call in hand is refused, or its handler runs. -/
lemma Balanced.serve {ps : WorkerPrograms σ WH} {target : Target} {args : Wire}
    (h : Balanced c {(id, .calling target args)} 0 log)
    (hbound : Bounded (log ++ c.worker.serveEvents ps id target args)) :
    Balanced { c with worker := c.worker.serveCall ps id target args } 0 0
      (log ++ c.worker.serveEvents ps id target args) := by
  have htaken := h.takeHost
  rcases WorkerSide.serve_cases HH ps c.worker id target args with
    ⟨e, hin, heq, hevents⟩ | ⟨callable, args', h', hin, heq, hevents⟩
  · have hrefused := htaken.advanceHost (.refuse hin)
    have hfailed := hrefused.advanceHost (.fail (h := HasHeap.heap c.worker.state))
    rw [List.append_assoc] at hfailed
    rw [heq, hevents]
    exact hfailed.postWorker rfl rfl
  · have hserved := htaken.advanceHost (.serve hin)
    rw [hevents, ← List.append_assoc] at hbound
    rw [heq, hevents, ← List.append_assoc]
    exact hserved.handler _ hbound

/-- The call on top of the stack returns with an outcome that is in hand or in the stash. -/
lemma Balanced.resume {o : CallOutcome} {stash : List (CallId × CallOutcome)}
    (h : Balanced c 0 y log) (htop : c.worker.top? = some id)
    (hstash : c.worker.endpoint.stash.filter (·.1 != id) = stash)
    (haside : y + asideTokens c.worker.endpoint.stash = (id, .aside o) ::ₘ asideTokens stash)
    (hbound : Bounded (log ++ c.worker.resumeEvents o)) :
    Balanced { c with worker := c.worker.resumeTop o } 0 0 (log ++ c.worker.resumeEvents o) := by
  have haside' : y + asideTokens c.worker.endpoint.stash =
      (id, .aside o) ::ₘ (0 + asideTokens stash) := by
    rw [haside, zero_add]
  have hsettled := h.settle hstash haside'
  -- the call is over; what goes on is the handler that made it, or the thread's own computation
  rcases WorkerSide.resume_cases HH c.worker o with ⟨f, rest, hframes, heq, hevents⟩ |
    ⟨a, resume, hframes, hbase, heq, hevents⟩ | ⟨hnone, -, -⟩
  · rw [WorkerSide.top?, hframes] at htop
    obtain rfl := Option.some.inj htop
    rw [hevents, List.append_cons] at hbound
    rw [heq, hevents, List.append_cons]
    have hpop : Balanced { c with worker := c.worker.popTop } {(f.answering, .handled)} 0
        (log ++ [.ofWorker f.waiting (.completed o)]) := by
      have hpopped : c.worker.popTop = { c.worker with
          thread := { c.worker.thread with
            frames := rest
            endpoint := c.worker.endpoint.settle f.waiting } } := by
        simp only [WorkerSide.popTop, hframes]
      rw [hpopped]
      refine hsettled.congr ⟨h.opened.endpoint, h.opened.link⟩ ?_ rfl
      simp only [hostFlow, WorkerSide.setEndpoint, hframes, List.map_cons, handledTokens_cons]
      congr 1
      rw [← Multiset.singleton_add]
      abel
    exact hpop.handler _ hbound
  · rw [WorkerSide.top?, hframes, hbase] at htop
    obtain rfl := Option.some.inj htop
    rw [hevents, List.append_cons] at hbound
    rw [heq, hevents, List.append_cons]
    have hpop : Balanced { c with worker := c.worker.popTop } 0 0
        (log ++ [.ofWorker a (.completed o)]) := by
      have hpopped : c.worker.popTop = { c.worker with
          thread := { c.worker.thread with
            base := .idle
            endpoint := c.worker.endpoint.settle a } } := by
        simp only [WorkerSide.popTop, hframes, hbase]
      rw [hpopped]
      exact hsettled.congr ⟨h.opened.endpoint, h.opened.link⟩ rfl rfl
    exact hpop.base _ hbound
  · rw [WorkerSide.top?_eq, hnone] at htop
    cases htop

/-- An answer in hand is for a call that waits: the one on top, or one that it is put aside for. -/
lemma Balanced.reply {m : Message} (h : Balanced c 0 {(m.id, .answering m)} log) {o : CallOutcome}
    {h' : Heap} (ho : m.outcome? (HasHeap.heap c.worker.state) = some (o, h'))
    (hbound : Bounded (log ++ c.worker.replyEvents m)) :
    Balanced { c with worker := c.worker.takeReply m } 0 0 (log ++ c.worker.replyEvents m) := by
  have hreceived := h.advanceWorker (.receive ho)
  -- while its outcome is in hand, no other outcome is put aside for the call
  have hstash := hreceived.stash_of_hand
  have hnext : Balanced { c with
        worker := { c.worker with state := HasHeap.setHeap h' c.worker.state } } 0
      {(m.id, .aside o)} (log ++ [.ofWorker m.id (.received (HasHeap.heap c.worker.state) o)]) :=
    hreceived.congr ⟨h.opened.endpoint, h.opened.link⟩ rfl rfl
  rcases WorkerSide.reply_cases HH c.worker m with ⟨o', h'', ho', htop, heq, hevents⟩ |
    ⟨o', h'', ho', -, heq, hevents⟩ | ⟨hlost, -, -⟩
  · cases ho.symm.trans ho'
    rw [hevents, List.append_cons] at hbound
    rw [heq, hevents, List.append_cons]
    refine hnext.resume htop hstash ?_ hbound
    rw [Multiset.singleton_add]
    rfl
  · cases ho.symm.trans ho'
    rw [heq, hevents]
    refine hnext.congr ⟨h.opened.endpoint, h.opened.link⟩ rfl ?_
    simp only [workerFlow, WorkerSide.setEndpoint, WorkerSide.endpoint, WorkerEndpoint.putAside]
      at hstash ⊢
    rw [hstash]
    rfl
  · -- an answer on its way has a call that waits for it, so it is never lost
    have hwaits : m.id ∈ c.worker.endpoint.outstanding :=
      (h.worker.waiting m.id).2 ⟨.answering m, by simp [workerFlow]⟩
    rcases hlost with hnone | hout
    · cases ho.symm.trans hnone
    · exact absurd hwaits hout

/-- A message taken off the worker's queue leaves nothing in hand. -/
lemma Balanced.take {ps : WorkerPrograms σ WH} {m : Message}
    (h : Balanced c (callTokens [m]) (answerTokens [m]) log)
    (hbound : Bounded (log ++ c.worker.takeEvents ps m)) :
    Balanced { c with worker := c.worker.take ps m } 0 0 (log ++ c.worker.takeEvents ps m) := by
  -- a call is served, an answer goes to the call that it bears the number of
  rcases tokens_message m (HasHeap.heap c.worker.state) with
    ⟨a, target, args, rfl⟩ | ⟨hcall, hanswer, o, h', ho⟩
  · exact h.serve hbound
  · rw [hcall, hanswer] at h
    cases m with
    | call => cases ho
    | reply => exact h.reply ho hbound
    | fail => exact h.reply ho hbound

omit [HasHeap σ] in
/-- The worker takes the head of its queue in hand. -/
lemma Balanced.receiveWorker {m : Message} {q : Queue} (h : Balanced c 0 0 log)
    (hreceive : c.worker.link.toWorker.receive = .message m q) :
    Balanced { c with worker := { c.worker with link := { c.worker.link with toWorker := q } } }
      (callTokens [m]) (answerTokens [m]) log := by
  obtain ⟨hqueue, -, -⟩ := Queue.eq_of_receive hreceive
  refine h.congr (WorkerSide.Deed.opened (.receive hreceive) h.opened) ?_ ?_
  · simp only [hostFlow, hqueue, callTokens_cons m q.messages]
    congr 1
    abel
  · simp only [workerFlow, WorkerSide.endpoint, hqueue, answerTokens_cons m q.messages]
    congr 1
    abel

/-- A move of the worker thread keeps the balance. -/
lemma Balanced.move {ps : WorkerPrograms σ WH} {w : WorkerSide σ WH β} (h : Balanced c 0 0 log)
    (hmove : c.worker.move? ps = some w) (hbound : Bounded (log ++ c.worker.moveEvents ps)) :
    Balanced { c with worker := w } 0 0 (log ++ c.worker.moveEvents ps) := by
  obtain ⟨-, ⟨o, hsome, rfl, hevents⟩ |
    ⟨-, ⟨m, q, hreceive, rfl, hevents⟩ | ⟨hended, -, -⟩⟩⟩ := WorkerSide.move_cases HH hmove
  · obtain ⟨id, htop, haside⟩ := Option.bind_eq_some_iff.1 hsome
    rw [hevents] at hbound ⊢
    exact h.resume htop rfl (by rw [zero_add, h.stash_of_aside haside]) hbound
  · rw [hevents] at hbound ⊢
    exact (h.receiveWorker hreceive).take hbound
  · -- the host is there, so its queue does not come to an end
    have hgone := (Queue.receive_eq_ended.1 hended).2
    rw [h.opened.link.toWorker_sending] at hgone
    cases hgone

/-! ## The host -/

omit [HasHeap σ] in
/-- The host takes the head of its queue in hand. -/
lemma Balanced.receiveHost {m : Message} {rest : List Message} {s : σ} (h : Balanced c 0 0 log)
    (hqueue : c.worker.link.toHost.messages = m :: rest) :
    Balanced { c with worker := { c.worker with
        link := { c.worker.link with toHost := { c.worker.link.toHost with messages := rest } }
        state := s } }
      (answerTokens [m]) (callTokens [m]) log := by
  refine h.congr ⟨h.opened.endpoint, ⟨h.opened.link.toWorker_sending,
    h.opened.link.toWorker_receiving, h.opened.link.toHost_sending,
    h.opened.link.toHost_receiving⟩⟩ ?_ ?_
  · simp only [hostFlow, hqueue, answerTokens_cons m rest]
    congr 1
    abel
  · simp only [workerFlow, WorkerSide.endpoint, hqueue, callTokens_cons m rest]
    congr 1
    abel

/-- What the host takes is an answer to a call that waits for it, or a call of the worker. -/
lemma Balanced.receive? {event : HostEvent} {c' : Pair σ HH WH β} (h : Balanced c 0 0 log)
    (hreceive : c.receive? = some (event, c')) :
    (∃ id o, event = .resolved id o ∧ Balanced c' 0 0 (log ++
      [.ofHost id (.received (HasHeap.heap c.worker.state) o), .ofHost id (.completed o)])) ∨
    ∃ id target args, event = .inbound id target args ∧
      Balanced c' 0 {(id, .calling target args)} log := by
  unfold Pair.receive? Queue.receive at hreceive
  cases hqueue : c.worker.link.toHost.messages with
  | nil => simp [hqueue, h.opened.link.toHost_sending] at hreceive
  | cons m rest =>
    simp only [hqueue, Option.some.injEq, Prod.mk.injEq] at hreceive
    obtain ⟨rfl, rfl⟩ := hreceive
    rcases tokens_message m (HasHeap.heap c.worker.state) with
      ⟨id, target, args, rfl⟩ | ⟨hcall, hanswer, o, h', ho⟩
    · exact .inr ⟨id, target, args, rfl, h.receiveHost hqueue⟩
    -- the answer is a token of the host's flow, so its call is pending
    · have hwaits : m.id ∈ c.host.pending := (h.host.waiting m.id).2
        ⟨.answering m, by simp [hostFlow, hqueue, answerTokens_cons m rest, hanswer]⟩
      have hhand := h.receiveHost (s := HasHeap.setHeap h' c.worker.state) hqueue
      rw [hanswer, hcall] at hhand
      rw [HostEndpoint.dispatch_eq ho hwaits]
      refine .inl ⟨m.id, o, rfl, ?_⟩
      rw [← List.singleton_append, ← List.append_assoc]
      exact (hhand.advanceHost (.receive ho)).completeHost

/-! ## Steps and runs -/

/-- Whatever happens keeps the balance. -/
theorem Step.balanced {ps : WorkerPrograms σ WH} {evs : List (Event HH WH)} {c' : Pair σ HH WH β}
    (step : Step ps c evs c') (h : Balanced c 0 0 log) (hbound : Bounded (log ++ evs)) :
    Balanced c' 0 0 (log ++ evs) := by
  cases step with
  | enter target hpack => exact h.issueHost hpack hbound
  | send houtgoing hsend =>
    rw [Queue.send?_eq h.opened.link.joined.1] at hsend
    cases hsend
    rw [List.append_nil]
    exact h.sendHost houtgoing
  | resolve hreceive =>
    rcases h.receive? hreceive with ⟨id, o, heq, hnext⟩ | ⟨id, target, args, heq, -⟩
    · cases heq
      exact hnext
    · cases heq
  | take hreceive =>
    rcases h.receive? hreceive with ⟨id, o, heq, -⟩ | ⟨id, target, args, heq, hnext⟩
    · cases heq
    · cases heq
      rw [List.append_nil]
      exact hnext.takeWorker.toTask (.taken _ _) (List.append_nil _).symm
  | @accept id target args before after handler args' h' htasks hrun =>
    have hserved := (h.ofTask htasks).advanceWorker (.serve hrun)
    have hrunning := hserved.toTask .running rfl
    exact hrunning.congr ⟨h.opened.endpoint, h.opened.link⟩ rfl rfl
  | refuse htasks hrefused =>
    exact ((h.ofTask htasks).advanceWorker (.refuse hrefused)).toTask (.refused _) rfl
  | ignore hreceive =>
    -- in a balanced pair no reply comes without a call that waits for it
    rcases h.receive? hreceive with ⟨id, o, heq, -⟩ | ⟨id, target, args, heq, -⟩
    · cases heq
    · cases heq
  | fail htasks => exact ((h.ofTask htasks).advanceWorker .fail).postHost rfl rfl
  | finish htasks result =>
    obtain ⟨hcall, hanswer⟩ := answerTo_tokens (HasHeap.heap c.worker.state) _ result
    exact ((h.ofTask htasks).advanceWorker .answer).postHost hcall hanswer
  | move hmove => exact h.move hmove hbound
  | start hrest task => exact h.base _ hbound
  | serve hrest =>
    rw [List.append_nil]
    exact h.congr ⟨h.opened.endpoint, h.opened.link⟩ rfl rfl
  | manageHost hmanaged =>
    obtain ⟨hnext, hpending⟩ := hmanaged.unchanged
    rw [List.append_nil]
    refine h.congr h.opened ?_ rfl
    simp only [hostFlow, hnext, hpending]
  | manageWorker hmanaged =>
    obtain ⟨hnext, hclosed, houtstanding, hstash⟩ := hmanaged.unchanged
    rw [List.append_nil]
    refine h.congr ⟨hclosed.trans h.opened.endpoint, h.opened.link⟩ rfl ?_
    simp only [workerFlow, WorkerSide.endpoint, WorkerSide.setEndpoint]
      at hnext houtstanding hstash ⊢
    rw [hnext, houtstanding, hstash]
  | work s =>
    rw [List.append_nil]
    exact h.congr ⟨h.opened.endpoint, h.opened.link⟩ rfl rfl

omit [HasHeap σ] in
/-- Two new ends have no calls. -/
lemma balanced_new (name : String) (state : σ) :
    Balanced (.new name state : Pair σ HH WH β) 0 0 ([] : List (Event HH WH)) :=
  ⟨⟨rfl, rfl, rfl, rfl, rfl⟩, Flow.valid_new fun _ => List.not_mem_nil,
    Flow.valid_new fun _ => List.not_mem_nil⟩

/-- The balance holds along every run in which the numbers suffice. -/
theorem Run.balanced {ps : WorkerPrograms σ WH} {name : String} {state : σ}
    (run : Run ps name state c log) (hbound : Bounded log) : Balanced c 0 0 log := by
  induction run with
  | new => exact balanced_new name state
  | step before step ih => exact step.balanced (ih hbound.of_append) hbound

lemma receive?_thread {event : HostEvent} {c' : Pair σ HH WH β}
    (h : c.receive? = some (event, c')) : c'.worker.thread = c.worker.thread := by
  unfold Pair.receive? at h
  split at h
  · cases h
    rfl
  · cases h

/-- Whatever happens keeps results and calls together. -/
theorem Step.tied {ps : WorkerPrograms σ WH} {evs : List (Event HH WH)} {c' : Pair σ HH WH β}
    (step : Step ps c evs c') (h : c.worker.Tied ps log) : c'.worker.Tied ps (log ++ evs) := by
  cases step with
  | move hmove => exact h.move hmove
  | start hrest task => exact h.base
  | resolve hreceive =>
    exact h.silent (fun f hf => receive?_thread hreceive ▸ hf) (by simp)
  | take hreceive => exact h.silent (fun f hf => receive?_thread hreceive ▸ hf) (by simp)
  | accept => exact h.silent (fun f hf => hf) (by simp)
  | refuse => exact h.silent (fun f hf => hf) (by simp)
  | fail => exact h.silent (fun f hf => hf) (by simp)
  | ignore hreceive => exact h.silent (fun f hf => receive?_thread hreceive ▸ hf) (by simp)
  | enter => exact h.silent (fun f hf => hf) (by simp)
  | send => exact h.silent (fun f hf => hf) (by simp)
  | finish => exact h.silent (fun f hf => hf) (by simp)
  | serve => exact h.silent (fun f hf => hf) (by simp)
  | manageHost => exact h.silent (fun f hf => hf) (by simp)
  | manageWorker => exact h.silent (fun f hf => hf) (by simp)
  | work => exact h.silent (fun f hf => hf) (by simp)

lemma Run.tied {ps : WorkerPrograms σ WH} {name : String} {state : σ}
    (run : Run ps name state c log) : c.worker.Tied ps log := by
  induction run with
  | new =>
    exact ⟨fun _ hf => absurd hf List.not_mem_nil,
      fun _ _ _ hmem => absurd hmem List.not_mem_nil⟩
  | step before step ih => exact step.tied ih

/-- Both ends agree on every call of either side, at every moment of every run in which no number
is given twice: where it is, that nothing happens to it twice, and that its outcome is what the
wire makes of the one result that the peer had for it. What the worker answers is the result of
the computation that it started for that call. -/
theorem Run.ends_agree {ps : WorkerPrograms σ WH} {name : String} {state : σ}
    (run : Run ps name state c log) (hbound : Bounded log) (id : CallId) :
    (c.hostFlow 0 log).Agrees "worker" id ∧ (c.workerFlow 0 log).Agrees "host" id ∧
      ∀ r h, .ofHost id (.answered r h) ∈ log → WorkerSide.ResultOf ps log id r := by
  have hbalanced := run.balanced hbound
  exact ⟨hbalanced.host.agrees id, hbalanced.worker.agrees id, run.tied.answers id⟩

/-! ## Two calls of one number -/

/-- No arguments have a wire form. -/
lemma exists_packArgs_nil (h : Heap) : ∃ args, packArgs h [] = .ok args :=
  ⟨_, packArgs_nil h⟩

/-- A call without arguments runs what it names. -/
lemma inbound_nil {K : Type} (side : String) (h : Heap) (k : K) (target : Target) :
    Inbound.of side h (some k) target ⟨.ref 0, [.list []]⟩ = .run k [] (h.newList []).2 := by
  have hunpack : unpackArgs h ⟨.ref 0, [.list []]⟩ = .ok ([], (h.newList []).2) :=
    unpackArgs_plain rfl
  simp only [Inbound.of, hunpack]

/-- A worker whose handlers answer null. -/
def nullPrograms : WorkerPrograms Heap Unit where
  handler _ _ := pure (.ok .null)
  function _ _ := pure (.ok .null)

/-- Calls the host without arguments. -/
def ping : WorkerTask Heap Unit :=
  fun s => .ask ⟨.method "ping", []⟩ s fun _ s => .done () s

section
variable {w : WorkerSide Heap WH Unit} {args : Wire}

/-- On an open worker side, the call of `ping` is sent at once. -/
lemma baseEvents_ping (hw : w.Open) (hpack : packArgs w.state [] = .ok args) :
    w.baseEvents (ping w.state) =
      [(.ofWorker ⟨w.endpoint.nextId⟩ (.issued (.method "ping") [] w.state) : Event HH WH)] := by
  have hstart :=
    WorkerSide.startCall_eq_issue hw.endpoint hw.joined (c := ⟨.method "ping", []⟩) hpack
  simp only [WorkerSide.baseEvents, ping, WorkerSide.runStep, hstart]
  rfl

/-- On an open worker side, the call of `ping` waits at the bottom of the stack. -/
lemma start_ping (hw : w.Open) (hpack : packArgs w.state [] = .ok args) :
    w.start ping = { w.issue (.method "ping") args with thread :=
      { (w.issue (.method "ping") args).thread with
        base := .waiting ⟨w.endpoint.nextId⟩ fun _ s => .done () s } } := by
  have hcall :=
    WorkerSide.startCall_eq_issue hw.endpoint hw.joined (c := ⟨.method "ping", []⟩) hpack
  simp only [WorkerSide.start, WorkerSide.runBase, ping, WorkerSide.runStep, hcall]

end

/-- Each side calls the other under the same number. The worker serves its call while it waits, and
the host takes that answer after the worker's call, which it serves only then. -/
theorem Run.ends_agree_sameNumber :
    ∃ (c : Pair Heap Unit Unit Unit) (log : List (Event Unit Unit)),
      Run nullPrograms "pair" .empty c log ∧ Bounded log ∧
      issuedIds (hostLog log) = [⟨1⟩] ∧ issuedIds (workerLog log) = [⟨1⟩] ∧
      (history (hostLog log) ⟨1⟩).getLast? = some (.completed (.ok .null)) ∧
      (history (workerLog log) ⟨1⟩).getLast? = some (.completed (.ok (.bool true))) ∧
      (c.hostFlow 0 log).Agrees "worker" ⟨1⟩ ∧ (c.workerFlow 0 log).Agrees "host" ⟨1⟩ ∧
      ∀ r h, .ofHost ⟨1⟩ (.answered r h) ∈ log → WorkerSide.ResultOf nullPrograms log ⟨1⟩ r := by
  have hnew : Run nullPrograms "pair" .empty (.new "pair" .empty : Pair Heap Unit Unit Unit) [] :=
    .new
  have hhost := hnew.step (.manageHost (.register
    (show HostEndpoint.register _ "ping" () = _ from rfl)))
  have hboth := hhost.step (.manageWorker (.register
    (show WorkerEndpoint.register _ "pong" () = _ from rfl)))
  -- both calls are on their way
  have hentered := hboth.step (.enter (.method "pong") (packArgs_nil _))
  have hsent := hentered.step (.send (show _ = [] ++ [_] from rfl) rfl)
  have hcalled := hsent.step (.start ⟨rfl, .inl rfl⟩ ping)
  rw [baseEvents_ping hsent.opened (packArgs_nil _), start_ping hsent.opened (packArgs_nil _)]
    at hcalled
  -- the worker answers the host, which has taken the worker's call by then
  have hanswered := hcalled.step (.move rfl)
  have htaken := hanswered.step (.take rfl)
  have hresolved := htaken.step (.resolve rfl)
  have haccepted := hresolved.step
    (.accept (show _ = [] ++ [_] from rfl) (inbound_nil "host" _ () _))
  have hfinished := haccepted.step (.finish (show _ = [] ++ [_] from rfl) (.ok (.bool true)))
  have hover := hfinished.step (.move rfl)
  refine ⟨_, _, hover, ?bound, rfl, rfl, rfl, rfl, hover.ends_agree ?bound ⟨1⟩⟩
  exact ⟨(Nat.one_le_two_pow : 1 ≤ 2 ^ 64), (Nat.one_le_two_pow : 1 ≤ 2 ^ 64)⟩

end Pair
end WorkerHost
