import Mathlib.Logic.Relation
import Mathlib.Tactic.Lemma
import Mathlib.Tactic.SplitIfs
import WorkerHost.Channel.Worker

/-!
# What a worker thread does

A move of a worker thread runs through many functions of the worker's end, but what these do comes
to a few small deeds: a computation works on the state, a call or an answer is sent, the stack
changes, an outcome is put aside, a message is taken. So what every deed keeps is kept by every move
of the thread and by every computation that it begins.

* `WorkerSide.runStep_passed`: what becomes of a computation, whatever there is of the link;
* `WorkerSide.runStep_ran`: on an open worker side it ends, or it sends one call;
* `WorkerSide.deeds_move`, `WorkerSide.deeds_start`: the thread does nothing but deeds.
-/

namespace WorkerHost

/-! ## Queues and links -/

/-- Whether both ends of a queue are there. -/
structure Queue.Joined (q : Queue) : Prop where
  sending : q.sending = true
  receiving : q.receiving = true

/-- A queue takes a message exactly if both its ends are there. -/
lemma Queue.send?_eq_none {q : Queue} (h : ¬ q.Joined) (m : Message) : q.send? m = none := by
  refine if_neg fun hboth => h ?_
  rw [Bool.and_eq_true] at hboth
  exact ⟨hboth.1, hboth.2⟩

/-- A queue with a message more at its end. -/
def Queue.push (q : Queue) (m : Message) : Queue :=
  { q with messages := q.messages ++ [m] }

/-- A queue of which both ends are there takes every message. -/
lemma Queue.send?_eq {q : Queue} (h : q.Joined) (m : Message) : q.send? m = some (q.push m) :=
  if_pos (by rw [h.sending, h.receiving, Bool.and_self])

/-- The message that a receiver finds is the oldest one. -/
lemma Queue.eq_of_receive {q rest : Queue} {m : Message} (h : q.receive = .message m rest) :
    q.messages = m :: rest.messages ∧ rest.sending = q.sending ∧ rest.receiving = q.receiving := by
  unfold receive at h
  cases hqueue : q.messages with
  | nil =>
    rw [hqueue] at h
    dsimp only at h
    split at h
    · cases h
    · cases h
  | cons first more =>
    rw [hqueue] at h
    cases h
    exact ⟨rfl, rfl, rfl⟩

/-- A queue is at its end when it is empty and its sender is gone. -/
lemma Queue.receive_eq_ended {q : Queue} :
    q.receive = .ended ↔ q.messages = [] ∧ q.sending = false := by
  unfold receive
  cases q.messages with
  | nil => cases q.sending <;> simp
  | cons => simp

/-- Nobody waits for a message of a sender that is gone. -/
lemma Queue.receive_ne_waiting {q : Queue} (h : q.sending = false) : q.receive ≠ .waiting := by
  unfold receive
  rw [h]
  cases q.messages with
  | nil => exact nofun
  | cons => exact nofun

/-- Whether both ends of a link can send and receive. -/
structure Link.Open (l : Link) : Prop where
  toWorker_sending : l.toWorker.sending = true
  toWorker_receiving : l.toWorker.receiving = true
  toHost_sending : l.toHost.sending = true
  toHost_receiving : l.toHost.receiving = true

/-- A link with a message more for the host. -/
def Link.tell (l : Link) (m : Message) : Link :=
  { l with toHost := l.toHost.push m }

/-- A link with a message more for the worker. -/
def Link.ask (l : Link) (m : Message) : Link :=
  { l with toWorker := l.toWorker.push m }

lemma Link.Open.joined {l : Link} (h : l.Open) : l.toWorker.Joined ∧ l.toHost.Joined :=
  ⟨⟨h.toWorker_sending, h.toWorker_receiving⟩, ⟨h.toHost_sending, h.toHost_receiving⟩⟩

lemma Link.Open.tell {l : Link} (h : l.Open) (m : Message) : (l.tell m).Open :=
  ⟨h.toWorker_sending, h.toWorker_receiving, h.toHost_sending, h.toHost_receiving⟩

lemma Link.Open.ask {l : Link} (h : l.Open) (m : Message) : (l.ask m).Open :=
  ⟨h.toWorker_sending, h.toWorker_receiving, h.toHost_sending, h.toHost_receiving⟩

namespace WorkerSide
variable {σ WH β : Type} {w w' : WorkerSide σ WH β} {id : CallId} {rest : List CallId}

/-! ## The stack -/

/-- The calls on the stack, the top first. -/
def callIds (w : WorkerSide σ WH β) : List CallId :=
  w.thread.frames.map (·.waiting) ++
    match w.thread.base with
    | .waiting id _ => [id]
    | _ => []

lemma top?_eq (w : WorkerSide σ WH β) : w.top? = w.callIds.head? := by
  unfold top? callIds
  cases w.thread.frames with
  | cons f rest => rfl
  | nil => cases w.thread.base <;> rfl

/-- Popping takes the call on top off the stack. -/
lemma popTop_eq (htop : w.callIds = id :: rest) :
    w.popTop.callIds = rest ∧ w.popTop.endpoint = w.endpoint.settle id ∧
      w.popTop.link = w.link := by
  cases hframes : w.thread.frames with
  | cons f others =>
    rw [callIds, hframes] at htop
    obtain ⟨rfl, hrest⟩ := List.cons.inj htop
    refine ⟨?_, ?_, ?_⟩
    · simp only [popTop, hframes, callIds]
      exact hrest
    · simp only [popTop, hframes, endpoint]
    · simp only [popTop, hframes]
  | nil =>
    cases hbase : w.thread.base with
    | waiting a resume =>
      rw [callIds, hframes, hbase] at htop
      obtain ⟨rfl, hrest⟩ := List.cons.inj htop
      refine ⟨?_, ?_, ?_⟩
      · simp only [popTop, hframes, hbase, callIds]
        exact hrest
      · simp only [popTop, hframes, hbase, endpoint]
      · simp only [popTop, hframes, hbase]
    | idle => simp [callIds, hframes, hbase] at htop
    | finished => simp [callIds, hframes, hbase] at htop
    | serving => simp [callIds, hframes, hbase] at htop
    | ended => simp [callIds, hframes, hbase] at htop

/-! ## Sending -/

/-- A worker side that is not closed, at a link of which both ends are there. -/
structure Open (w : WorkerSide σ WH β) : Prop where
  endpoint : w.endpoint.closed = false
  link : w.link.Open

lemma Open.joined (hw : w.Open) : w.link.toHost.Joined :=
  hw.link.joined.2

lemma post_of_joined (hjoined : w.link.toHost.Joined) (m : Message) :
    w.post m = { w with link := w.link.tell m } := by
  simp only [post, Queue.send?_eq hjoined]
  rfl

lemma post_of_not_joined (hgone : ¬ w.link.toHost.Joined) (m : Message) : w.post m = w := by
  simp only [post, Queue.send?_eq_none hgone]

/-- A post reaches a queue of which both ends are there, and is lost on any other. -/
lemma post_cases (w : WorkerSide σ WH β) (m : Message) :
    w.post m = w ∨ w.post m = { w with link := w.link.tell m } := by
  by_cases hjoined : w.link.toHost.Joined
  · exact .inr (post_of_joined hjoined m)
  · exact .inl (post_of_not_joined hjoined m)

/-- The worker side after it has sent a call. -/
def issue (w : WorkerSide σ WH β) (target : Target) (args : Wire) : WorkerSide σ WH β :=
  { w with
    thread := { w.thread with
      endpoint := { w.endpoint with
        nextId := w.endpoint.nextId + 1
        depth := w.endpoint.depth + 1
        outstanding := ⟨w.endpoint.nextId⟩ :: w.endpoint.outstanding } }
    link := w.link.tell (.call ⟨w.endpoint.nextId⟩ target args) }

/-- The worker side with another next number, working on another state. -/
def turn (w : WorkerSide σ WH β) (n : UInt64) (s : σ) : WorkerSide σ WH β :=
  { w with
    thread := { w.thread with endpoint := { w.endpoint with nextId := n } }
    state := s }

/-! ## Running computations -/

section
variable [HasHeap σ]

/-- What becomes of a computation: it ends, after calls that no link took have used up numbers, or
it waits for a call that it has sent. -/
inductive Passed {α : Type} (w : WorkerSide σ WH β) :
    (α ⊕ Blocked σ α) × WorkerSide σ WH β → Prop where
  | ended (a : α) (n : UInt64) (s : σ) (hnext : w.link.toHost.Joined → n = w.endpoint.nextId) :
      Passed w (.inl a, w.turn n s)
  | blocked (call : HostCall) (s : σ) (args : Wire) (resume : CallOutcome → σ → WorkerStep σ α)
      (hopen : w.endpoint.closed = false) (hjoined : w.link.toHost.Joined)
      (hpack : packArgs (HasHeap.heap s) call.args = .ok args) :
      Passed w (.inr ⟨⟨w.endpoint.nextId⟩, call, resume⟩,
        { w with state := s }.issue call.target args)

/-- An open end sends every call that can be packed, if the queue to the host has both its ends. -/
lemma startCall_eq_issue {c : HostCall} {args : Wire} (hopen : w.endpoint.closed = false)
    (hjoined : w.link.toHost.Joined) (hpack : packArgs (HasHeap.heap w.state) c.args = .ok args) :
    startCall w c = (.ok ⟨w.endpoint.nextId⟩, w.issue c.target args) := by
  have hclosed : ¬ w.endpoint.closed = true := by simp [hopen]
  simp only [startCall, hpack, Queue.send?_eq hjoined]
  rw [if_neg hclosed]
  rfl

/-- A call is sent, or it fails at once; one that no link takes uses up a number. -/
lemma startCall_cases (w : WorkerSide σ WH β) (c : HostCall) :
    (∃ err n, startCall w c = (.error err, w.turn n w.state) ∧
      (w.link.toHost.Joined → n = w.endpoint.nextId)) ∨
    ∃ args, w.endpoint.closed = false ∧ w.link.toHost.Joined ∧
      packArgs (HasHeap.heap w.state) c.args = .ok args ∧
      startCall w c = (.ok ⟨w.endpoint.nextId⟩, w.issue c.target args) := by
  by_cases hclosed : w.endpoint.closed = true
  · refine .inl ⟨.closed, w.endpoint.nextId, ?_, fun _ => rfl⟩
    simp only [startCall]
    rw [if_pos hclosed]
    rfl
  cases hpack : packArgs (HasHeap.heap w.state) c.args with
  | error err =>
    refine .inl ⟨.codec err, w.endpoint.nextId, ?_, fun _ => rfl⟩
    simp only [startCall, hpack]
    rw [if_neg hclosed]
    rfl
  | ok args =>
    by_cases hjoined : w.link.toHost.Joined
    · have hopen : w.endpoint.closed = false := Bool.eq_false_iff.2 hclosed
      exact .inr ⟨args, hopen, hjoined, rfl, startCall_eq_issue hopen hjoined hpack⟩
    · refine .inl ⟨.closed, w.endpoint.nextId + 1, ?_, fun h => absurd h hjoined⟩
      simp only [startCall, hpack, Queue.send?_eq_none hjoined]
      rw [if_neg hclosed]
      rfl

lemma Passed.of_turn {α : Type} {n : UInt64} {s : σ} {r : (α ⊕ Blocked σ α) × WorkerSide σ WH β}
    (hnext : w.link.toHost.Joined → n = w.endpoint.nextId) (hr : (w.turn n s).Passed r) :
    w.Passed r := by
  cases hr with
  | ended a m s' hm => exact .ended a m s' fun h => (hm h).trans (hnext h)
  | blocked call s' args resume hopen hjoined hpack =>
    -- a call is sent only where no number was used up before
    have hn : (w.turn n s).endpoint.nextId = w.endpoint.nextId := hnext hjoined
    have hback : { w.turn n s with state := s' } = { w with state := s' } := by
      rw [turn, hnext hjoined]
      rfl
    rw [hn, hback]
    exact .blocked call s' args resume hopen hjoined hpack

/-- What becomes of a computation, whatever there is of the link. -/
lemma runStep_passed {α : Type} (w : WorkerSide σ WH β) (step : WorkerStep σ α) :
    w.Passed (runStep w step) := by
  induction step generalizing w with
  | done a s => exact .ended a w.endpoint.nextId s fun _ => rfl
  | ask call s resume ih =>
    unfold runStep
    rcases startCall_cases { w with state := s } call with
      ⟨err, n, hstart, hnext⟩ | ⟨args, hopen, hjoined, hpack, hstart⟩
    · -- the computation is told at once and goes on
      rw [hstart]
      exact Passed.of_turn (s := s) hnext (ih _ _ _)
    · rw [hstart]
      exact .blocked call s args resume hopen hjoined hpack

/-- What becomes of a computation on an open worker side: it ends, or it waits for a call that it
has sent. -/
inductive Ran {α : Type} (w : WorkerSide σ WH β) :
    (α ⊕ Blocked σ α) × WorkerSide σ WH β → Prop where
  | ended (a : α) (s : σ) : Ran w (.inl a, { w with state := s })
  | blocked (call : HostCall) (s : σ) (args : Wire) (resume : CallOutcome → σ → WorkerStep σ α)
      (hpack : packArgs (HasHeap.heap s) call.args = .ok args) :
      Ran w (.inr ⟨⟨w.endpoint.nextId⟩, call, resume⟩,
        { w with state := s }.issue call.target args)

/-- Calls that can not be packed leave nothing behind, so a computation on an open worker side sends
one call at most. -/
lemma runStep_ran {α : Type} (hw : w.Open) (step : WorkerStep σ α) : w.Ran (runStep w step) := by
  have hpassed := w.runStep_passed step
  generalize runStep w step = r at hpassed
  cases hpassed with
  | ended a n s hnext =>
    rw [turn, hnext hw.joined]
    exact .ended a s
  | blocked call s args resume hopen hjoined hpack => exact .blocked call s args resume hpack

end

/-! ## Deeds -/

/-- One of the small things that a worker thread does to its side. -/
inductive Deed : WorkerSide σ WH β → WorkerSide σ WH β → Prop where
  /-- a computation works on the state; its calls that no link took have used up numbers -/
  | turn {w : WorkerSide σ WH β} (n : UInt64) (s : σ)
      (hnext : w.link.toHost.Joined → n = w.endpoint.nextId) : Deed w (w.turn n s)
  /-- a computation sends a call -/
  | issue {w : WorkerSide σ WH β} (s : σ) (target : Target) (args : Wire)
      (hopen : w.endpoint.closed = false) (hjoined : w.link.toHost.Joined) :
      Deed w ({ w with state := s }.issue target args)
  /-- the outcome of a handler is sent -/
  | tell {w : WorkerSide σ WH β} (m : Message) (hjoined : w.link.toHost.Joined) :
      Deed w { w with link := w.link.tell m }
  /-- computations begin to wait, go on or end -/
  | stack {w : WorkerSide σ WH β} (frames : List (Frame σ)) (base : Base σ β) :
      Deed w { w with thread := { w.thread with frames := frames, base := base } }
  /-- a call is over -/
  | settle {w : WorkerSide σ WH β} (id : CallId) : Deed w (w.setEndpoint (w.endpoint.settle id))
  | putAside {w : WorkerSide σ WH β} (id : CallId) (o : CallOutcome) :
      Deed w (w.setEndpoint (w.endpoint.putAside id o))
  /-- a message is taken -/
  | receive {w : WorkerSide σ WH β} {m q} (h : w.link.toWorker.receive = .message m q) :
      Deed w { w with link := { w.link with toWorker := q } }
  /-- the queue is found at its end -/
  | hangUp {w : WorkerSide σ WH β} (h : w.link.toWorker.receive = .ended) :
      Deed w (w.setEndpoint { w.endpoint with closed := true })

abbrev Deeds : WorkerSide σ WH β → WorkerSide σ WH β → Prop :=
  Relation.ReflTransGen Deed

/-- What every deed keeps, deeds one after another keep. -/
lemma Deeds.keep {P : WorkerSide σ WH β → Prop} (h : Deeds w w')
    (hdeed : ∀ {u u'}, Deed u u' → P u → P u') (hw : P w) : P w' := by
  induction h with
  | refl => exact hw
  | tail _ hlast ih => exact hdeed hlast ih

/-- Working on the state alone. -/
lemma deeds_state (w : WorkerSide σ WH β) (s : σ) : Deeds w { w with state := s } :=
  .single (.turn w.endpoint.nextId s fun _ => rfl)

lemma deeds_post (w : WorkerSide σ WH β) (m : Message) : Deeds w (w.post m) := by
  by_cases hjoined : w.link.toHost.Joined
  · rw [post_of_joined hjoined]
    exact .single (.tell m hjoined)
  · rw [post_of_not_joined hjoined]

lemma deeds_popTop (w : WorkerSide σ WH β) : Deeds w w.popTop := by
  unfold popTop
  split
  · next f rest _ => exact .tail (.single (.stack rest w.thread.base)) (.settle f.waiting)
  · split
    · next id _ _ => exact .tail (.single (.stack w.thread.frames .idle)) (.settle id)
    · exact .refl

variable [HasHeap σ]

lemma deeds_runStep {α : Type} (w : WorkerSide σ WH β) (step : WorkerStep σ α) :
    Deeds w (w.runStep step).2 := by
  have hpassed := w.runStep_passed step
  generalize w.runStep step = r at hpassed
  cases hpassed with
  | ended a n s hnext => exact .single (.turn n s hnext)
  | blocked call s args resume hopen hjoined hpack =>
    exact .single (.issue s call.target args hopen hjoined)

lemma deeds_runHandler (answering : CallId) (w : WorkerSide σ WH β)
    (step : WorkerStep σ (Except RemoteError Value)) : Deeds w (w.runHandler answering step) := by
  have hran := w.deeds_runStep step
  unfold runHandler
  generalize w.runStep step = r at hran
  obtain ⟨outcome | b, u⟩ := r
  · exact hran.trans (u.deeds_post _)
  · exact hran.tail (.stack (⟨b.id, answering, b.resume⟩ :: u.thread.frames) u.thread.base)

lemma deeds_runBase (w : WorkerSide σ WH β) (step : WorkerStep σ β) : Deeds w (w.runBase step) := by
  have hran := w.deeds_runStep step
  unfold runBase
  generalize w.runStep step = r at hran
  obtain ⟨b | b, u⟩ := r
  · exact hran.tail (.stack u.thread.frames (.finished b))
  · exact hran.tail (.stack u.thread.frames (.waiting b.id b.resume))

/-- A computation that the thread begins comes to deeds. -/
lemma deeds_start (w : WorkerSide σ WH β) (task : WorkerTask σ β) : Deeds w (w.start task) :=
  w.deeds_runBase _

lemma deeds_resumeTop (w : WorkerSide σ WH β) (o : CallOutcome) : Deeds w (w.resumeTop o) := by
  unfold resumeTop
  split
  · exact w.deeds_popTop.trans (deeds_runHandler _ _ _)
  · split
    · exact w.deeds_popTop.trans (deeds_runBase _ _)
    · exact .refl

lemma deeds_takeReply (w : WorkerSide σ WH β) (m : Message) : Deeds w (w.takeReply m) := by
  unfold takeReply
  split
  · next o h _ =>
    have hread := w.deeds_state (HasHeap.setHeap h w.state)
    split_ifs
    · exact hread.trans (deeds_resumeTop _ o)
    · exact hread.tail (.putAside m.id o)
    · exact .refl
  · exact .refl

lemma deeds_take (ps : WorkerPrograms σ WH) (w : WorkerSide σ WH β) (m : Message) :
    Deeds w (w.take ps m) := by
  cases m with
  | reply id v => exact w.deeds_takeReply (.reply id v)
  | fail id e => exact w.deeds_takeReply (.fail id e)
  | call id target args =>
    unfold take serveCall
    dsimp only
    split
    · exact w.deeds_post _
    · exact deeds_runHandler _ _ _

lemma deeds_disconnect (hended : w.link.toWorker.receive = .ended) : Deeds w w.disconnect := by
  have hclosed : Deeds w (w.setEndpoint { w.endpoint with closed := true }) :=
    .single (.hangUp hended)
  unfold disconnect
  dsimp only
  split
  · exact hclosed.trans (deeds_resumeTop _ _)
  · exact hclosed.tail (.stack _ .ended)

/-- A move of the thread comes to deeds. -/
lemma deeds_move {ps : WorkerPrograms σ WH} (hmove : w.move? ps = some w') : Deeds w w' := by
  unfold move? at hmove
  split at hmove
  · split at hmove
    · cases hmove
      exact w.deeds_resumeTop _
    · split at hmove
      · next m q hreceive =>
        cases hmove
        exact .head (.receive hreceive) (deeds_take ps _ m)
      · next hended =>
        cases hmove
        exact deeds_disconnect hended
      · cases hmove
  · cases hmove

end WorkerSide
end WorkerHost
