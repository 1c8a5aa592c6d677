import WorkerHost.Proofs.Channel.Answers
import WorkerHost.Proofs.Channel.Stack

/-!
# The answers of a worker

A worker serves a call of the host on its one thread. A handler that makes a call of its own waits
on the stack, and other calls are served meanwhile; so the tasks that wait are the frames, the last
call that was taken on top.

* `WorkerSide.Exchange`: the calls that a thread takes and the messages that it sends, against any
  peer;
* `WorkerSide.Exchange.attended`: all these calls are accounted for.
-/

namespace WorkerHost

/-- The messages that a queue has got. -/
def Queue.added (q q' : Queue) : List Message :=
  q'.messages.drop q.messages.length

lemma Queue.added_eq {q q' : Queue} {more : List Message} (h : q'.messages = q.messages ++ more) :
    q.added q' = more := by
  rw [added, h, List.drop_left]

namespace WorkerSide
variable {σ WH β : Type}

/-- A call that a thread takes to serve it, with what its target names by then. -/
def inquiry? (w : WorkerSide σ WH β) : Heard Unit WH → Option (Inquiry (WH ⊕ Function))
  | .took (.call id target args) h => some ⟨id, target, args, h, w.endpoint.handlerFor target⟩
  | _ => none

variable [HasHeap σ]

/-- What happens from a new end on, one step after another, while whoever holds the other end does
what it likes: the calls that the thread takes, and the messages that it puts on its queue. -/
inductive Exchange (ps : WorkerPrograms σ WH) (name : String) (state : σ) :
    WorkerSide σ WH β → List (Inquiry (WH ⊕ Function)) → List Message → Prop where
  | new : Exchange ps name state ⟨⟨.new name, [], .idle⟩, .new, state⟩ [] []
  | step {w taken sent more w'} (before : Exchange ps name state w taken sent)
      (h : ThreadStep ps w more w') :
      Exchange ps name state w' (taken ++ more.filterMap w.inquiry?)
        (sent ++ w.link.toHost.added w'.link.toHost)
  | peer {w taken sent l} (before : Exchange ps name state w taken sent) (h : w.link.Handled l) :
      Exchange ps name state { w with link := l } taken sent

/-- A frame waits on behalf of a call: it is to answer it, and it holds what is left of the
computation that was started for it, cut off at a call of the host. -/
structure WaitsFor (ps : WorkerPrograms σ WH) (q : Inquiry (WH ⊕ Function)) (f : Frame σ) :
    Prop where
  answering : f.answering = q.id
  rest : ∃ call s, q.Goes ps.callable "worker" (.ask call s f.resume)

/-- All calls that the thread has taken are accounted for, by the frames on its stack and what it
has sent. -/
def Attends (ps : WorkerPrograms σ WH) (w : WorkerSide σ WH β)
    (taken : List (Inquiry (WH ⊕ Function))) (sent : List Message) : Prop :=
  Attended (WaitsFor ps) (fun q m => q.Decided "worker" (outcomesOf ps.callable) m) taken
    w.thread.frames w.link.toHost.Joined sent

/-- They are accounted for after something that the thread has done. -/
def AttendsAfter (ps : WorkerPrograms σ WH) (w w' : WorkerSide σ WH β)
    (taken : List (Inquiry (WH ⊕ Function))) (sent : List Message) : Prop :=
  ∃ more, w'.link.toHost.messages = w.link.toHost.messages ++ more ∧
    Attends ps w' taken (sent ++ more)

variable {ps : WorkerPrograms σ WH} {w w' : WorkerSide σ WH β}
  {taken taken' : List (Inquiry (WH ⊕ Function))} {sent : List Message}
  {q : Inquiry (WH ⊕ Function)}

lemma AttendsAfter.perm (h : AttendsAfter ps w w' taken sent) (hperm : taken'.Perm taken) :
    AttendsAfter ps w w' taken' sent := by
  obtain ⟨more, hmore, hattends⟩ := h
  exact ⟨more, hmore, Attended.perm hattends hperm⟩

/-- What touches neither the stack nor the queue to the host sends nothing. -/
lemma Attends.quiet (h : Attends ps w taken sent) (hframes : w'.thread.frames = w.thread.frames)
    (hmessages : w'.link.toHost.messages = w.link.toHost.messages)
    (hjoined : w'.link.toHost.Joined → w.link.toHost.Joined) :
    AttendsAfter ps w w' taken sent := by
  refine ⟨[], by rw [hmessages, List.append_nil], ?_⟩
  rw [List.append_nil, Attends, hframes]
  exact Attended.congr h hjoined

/-- The answer to a call is sent, or it is lost. -/
lemma Attends.post (h : Attends ps w taken sent) {m : Message}
    (hm : q.Decided "worker" (outcomesOf ps.callable) m) :
    AttendsAfter ps w (w.post m) (q :: taken) sent := by
  by_cases hjoined : w.link.toHost.Joined
  · rw [post_of_joined hjoined]
    refine ⟨[m], rfl, ?_⟩
    exact Attended.congr (h.finish hm hm.answers.1 (.inl rfl)) fun _ => hjoined
  · rw [post_of_not_joined hjoined]
    exact ⟨[], (List.append_nil _).symm, h.finish hm hm.answers.1 (.inr ⟨hjoined, rfl⟩)⟩

/-- A computation that was started for a call answers it, or it waits on the stack. -/
lemma Attends.handler (h : Attends ps w taken sent)
    {step : WorkerStep σ (Except RemoteError Value)} (hgoes : q.Goes ps.callable "worker" step) :
    AttendsAfter ps w (w.runHandler q.id step) (q :: taken) sent := by
  obtain ⟨k, xs, hp, s₀, hrun, hstarted⟩ := hgoes
  have hpassed := w.runStep_passed step
  have hleads := runStep_leads w step hstarted
  unfold runHandler
  generalize w.runStep step = ran at hpassed hleads
  cases hpassed with
  | ended r n s hnext =>
    have hdone : q.Goes ps.callable "worker" (.done r s) := by
      rcases hleads with ⟨_, ⟨⟩, hdone⟩ | ⟨_, _, hblocked, -⟩
      · exact ⟨k, xs, hp, s₀, hrun, hdone⟩
      · cases hblocked
    exact Attends.post (w := w.turn n s) h hdone.decided
  | blocked call s args resume hopen hjoined hpack =>
    have hasks : ∃ call s, q.Goes ps.callable "worker" (.ask call s resume) := by
      rcases hleads with ⟨_, hended, -⟩ | ⟨_, s', ⟨⟩, hasks⟩
      · cases hended
      · exact ⟨call, s', k, xs, hp, s₀, hrun, hasks⟩
    refine ⟨[.call ⟨w.endpoint.nextId⟩ call.target args], rfl, ?_⟩
    have hwaits : WaitsFor ps q ⟨⟨w.endpoint.nextId⟩, q.id, resume⟩ := ⟨rfl, hasks⟩
    have hwaiting := Attended.wait (show Attended _ _ taken ([] ++ w.thread.frames) _ sent from h)
      hwaits
    exact (hwaiting.calls (by simp [Message.isAnswer])).congr fun _ => hjoined

/-- The thread's own computation makes calls and answers nothing. -/
lemma Attends.base (h : Attends ps w taken sent) (step : WorkerStep σ β) :
    AttendsAfter ps w (w.runBase step) taken sent := by
  have hpassed := w.runStep_passed step
  unfold runBase
  generalize w.runStep step = ran at hpassed
  cases hpassed with
  | ended b n s hnext => exact h.quiet rfl rfl id
  | blocked call s args resume hopen hjoined hpack =>
    refine ⟨[.call ⟨w.endpoint.nextId⟩ call.target args], rfl, ?_⟩
    exact (h.calls (by simp [Message.isAnswer])).congr fun _ => hjoined

/-- A call is taken: it is refused, or its handler begins. -/
lemma Attends.serve (h : Attends ps w taken sent) (id : CallId) (target : Target) (args : Wire) :
    AttendsAfter ps w (w.serveCall ps id target args)
      (⟨id, target, args, HasHeap.heap w.state, w.endpoint.handlerFor target⟩ :: taken) sent := by
  let q : Inquiry (WH ⊕ Function) :=
    ⟨id, target, args, HasHeap.heap w.state, w.endpoint.handlerFor target⟩
  rcases serve_cases Unit ps w id target args with
    ⟨e, hin, heq, -⟩ | ⟨k, xs, hp, hin, heq, -⟩
  · rw [heq]
    exact h.post (q := q) (Inquiry.decided_of_refused hin)
  · rw [heq]
    exact h.handler (q := q) ⟨k, xs, hp, w.state, hin, .refl⟩

/-- The call on top of the stack returns to the handler that has made it. -/
lemma Attends.resume (h : Attends ps w taken sent) (o : CallOutcome) :
    AttendsAfter ps w (w.resumeTop o) taken sent := by
  rcases resume_cases Unit w o with ⟨f, rest, hframes, heq, -⟩ |
    ⟨a, resume, hframes, hbase, heq, -⟩ | ⟨-, heq, -⟩
  · rw [heq]
    rw [Attends, hframes] at h
    obtain ⟨q, taken', hwaits, hperm, hrest⟩ :=
      Attended.remove (show Attended _ _ taken ([] ++ f :: rest) _ sent from h)
    have hpop : w.popTop.thread.frames = rest ∧ w.popTop.link = w.link := by
      simp only [popTop, hframes]
      exact ⟨trivial, trivial⟩
    have hpopped : Attends ps w.popTop taken' sent := by
      rw [Attends, hpop.1, hpop.2]
      exact hrest
    obtain ⟨call, s, k, xs, hp, s₀, hrun, hleads⟩ := hwaits.rest
    have hgoes : q.Goes ps.callable "worker" (f.resume o w.state) :=
      ⟨k, xs, hp, s₀, hrun, hleads.ask o w.state⟩
    have hafter := (hpopped.handler hgoes).perm hperm
    rw [← hwaits.answering] at hafter
    obtain ⟨more, hmore, hattends⟩ := hafter
    rw [hpop.2] at hmore
    exact ⟨more, hmore, hattends⟩
  · have hpop : w.popTop.thread.frames = w.thread.frames ∧ w.popTop.link = w.link := by
      simp only [popTop, hframes, hbase]
      exact ⟨trivial, trivial⟩
    have hpopped : Attends ps w.popTop taken sent := by
      rw [Attends, hpop.1, hpop.2]
      exact h
    obtain ⟨more, hmore, hattends⟩ := hpopped.base (resume o w.state)
    rw [hpop.2] at hmore
    rw [heq]
    exact ⟨more, hmore, hattends⟩
  · rw [heq]
    exact h.quiet rfl rfl id

lemma Attends.reply (h : Attends ps w taken sent) (m : Message) :
    AttendsAfter ps w (w.takeReply m) taken sent := by
  rcases reply_cases Unit w m with
    ⟨o, hp, -, -, heq, -⟩ | ⟨o, hp, -, -, heq, -⟩ | ⟨-, heq, -⟩
  · rw [heq]
    exact Attends.resume (w := { w with state := HasHeap.setHeap hp w.state }) h o
  · rw [heq]
    exact h.quiet rfl rfl id
  · rw [heq]
    exact h.quiet rfl rfl id

lemma Attends.disconnect (h : Attends ps w taken sent) :
    AttendsAfter ps w w.disconnect taken sent := by
  rcases disconnect_cases Unit w with ⟨id, rest, -, heq, -⟩ | ⟨-, heq, -⟩
  · rw [heq]
    exact Attends.resume (w := w.hungUp) h _
  · rw [heq]
    exact h.quiet rfl rfl id

/-! ## Steps and runs -/

omit [HasHeap σ] in
lemma inquiries_events (evs : List (Event Unit WH)) :
    (evs.map Heard.event).filterMap w.inquiry? = [] := by
  rw [List.filterMap_eq_nil_iff]
  intro x hx
  obtain ⟨e, -, rfl⟩ := List.mem_map.1 hx
  rfl

omit [HasHeap σ] in
lemma inquiries_cons (x : Heard Unit WH) (evs : List (Event Unit WH)) :
    (x :: evs.map Heard.event).filterMap w.inquiry? = (w.inquiry? x).toList := by
  cases hx : w.inquiry? x with
  | none =>
    rw [List.filterMap_cons_none hx, inquiries_events]
    rfl
  | some q =>
    rw [List.filterMap_cons_some hx, inquiries_events]
    rfl

lemma Attends.move {more : List (Heard Unit WH)} (h : Attends ps w taken sent)
    (hmoved : Moved ps w more w') :
    AttendsAfter ps w w' (taken ++ more.filterMap w.inquiry?) sent := by
  cases hmoved with
  | aside hcalls haside =>
    rw [inquiries_events, List.append_nil]
    exact h.resume _
  | @taken m rest hnone hreceive =>
    have hread : Attends ps { w with link := { w.link with toWorker := rest } } taken sent := h
    rw [inquiries_cons]
    cases m with
    | call id target args =>
      exact (hread.serve id target args).perm (List.perm_append_singleton _ _)
    | reply id v => exact (hread.reply (.reply id v)).perm (by simp [inquiry?])
    | fail id e => exact (hread.reply (.fail id e)).perm (by simp [inquiry?])
  | ended hnone hreceive =>
    rw [inquiries_cons]
    exact h.disconnect.perm (by simp [inquiry?])

/-- Every step around a thread keeps its calls accounted for. -/
lemma Attends.step {more : List (Heard Unit WH)} (h : Attends ps w taken sent)
    (step : ThreadStep ps w more w') :
    AttendsAfter ps w w' (taken ++ more.filterMap w.inquiry?) sent := by
  cases step with
  | move hmove => exact h.move (moved_of_move hmove)
  | start hrest task =>
    rw [inquiries_events, List.append_nil]
    exact h.base _
  | serve hrest =>
    rw [List.filterMap_nil, List.append_nil]
    exact h.quiet rfl rfl id
  | close =>
    rw [List.filterMap_nil, List.append_nil]
    unfold WorkerSide.close
    split
    · exact h.quiet rfl rfl id
    · exact h.quiet rfl rfl fun hjoined => nomatch hjoined.sending
  | manage hmanaged =>
    rw [List.filterMap_nil, List.append_nil]
    exact h.quiet rfl rfl id
  | work s =>
    rw [List.filterMap_nil, List.append_nil]
    exact h.quiet rfl rfl id

/-- At every moment all calls that the thread has taken are accounted for. -/
lemma Exchange.attended {name : String} {state : σ} (run : Exchange ps name state w taken sent) :
    Attends ps w taken sent := by
  induction run with
  | new => exact .start
  | step before hstep ih =>
    obtain ⟨more, hmore, hattends⟩ := ih.step hstep
    rw [Queue.added_eq hmore]
    exact hattends
  | peer before hpeer ih => exact Attended.congr ih hpeer.joined

/-- A call that is refused runs nothing: no more than the queues of the link has changed. -/
lemma ThreadStep.of_refused {more : List (Heard Unit WH)} (step : ThreadStep ps w more w')
    (hq : q ∈ more.filterMap w.inquiry?) (hrefused : q.Refused) :
    w'.thread = w.thread ∧ w'.state = w.state := by
  have hmoved : Moved ps w more w' := by
    cases step with
    | move hmove => exact moved_of_move hmove
    | start hrest task =>
      rw [inquiries_events] at hq
      exact absurd hq List.not_mem_nil
    | _ => exact absurd hq List.not_mem_nil
  cases hmoved with
  | aside hcalls haside =>
    rw [inquiries_events] at hq
    exact absurd hq List.not_mem_nil
  | @taken m rest hnone hreceive =>
    rw [inquiries_cons] at hq
    cases m with
    | call id target args =>
      obtain rfl := List.mem_singleton.1 hq
      obtain ⟨e, he⟩ := hrefused.exists_refused "worker"
      have hserve : take ps { w with link := { w.link with toWorker := rest } }
          (.call id target args) =
            post { w with link := { w.link with toWorker := rest } } (.fail id e) := by
        rcases serve_cases Unit ps { w with link := { w.link with toWorker := rest } } id target
          args with ⟨e', hin, heq, -⟩ | ⟨k, xs, hp, hin, -⟩
        · cases he.symm.trans hin
          exact heq
        · cases he.symm.trans hin
      rw [hserve]
      rcases post_cases { w with link := { w.link with toWorker := rest } } (.fail id e) with
        heq | heq
      · rw [heq]
        exact ⟨rfl, rfl⟩
      · rw [heq]
        exact ⟨rfl, rfl⟩
    | reply => exact absurd hq List.not_mem_nil
    | fail => exact absurd hq List.not_mem_nil
  | ended hnone hreceive =>
    rw [inquiries_cons] at hq
    exact absurd hq List.not_mem_nil

end WorkerSide
end WorkerHost
