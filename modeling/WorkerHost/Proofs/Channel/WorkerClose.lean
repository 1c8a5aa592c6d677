import WorkerHost.Proofs.Channel.Hangup

/-!
# What closing a worker's end does to its queue

A worker that closes its end gives up its sender, and nothing else. From then on it sends nothing,
and each of its own calls fails at once (`WorkerSide.Mute`, `WorkerSide.Mute.later`). But the loops
that take messages do not look at the flag. Inbound calls that are in the queue, and also those that
come later, are still taken in their order and their handlers run as far as they get without the
host; only the answers are lost: `WorkerSide.close_serves_on`.
-/

namespace WorkerHost

variable {σ WH β : Type}

/-- What a computation comes to if all its calls fail. -/
def Step.refused {α : Type} : WorkerStep σ α → α × σ
  | .done a s => (a, s)
  | .ask _ s resume => (resume (.error .closed) s).refused

namespace WorkerSide

/-- The end is closed and has no sender any more. -/
structure Mute (w : WorkerSide σ WH β) : Prop where
  closed : w.endpoint.closed = true
  sender : w.link.toHost.sending = false

lemma mute_close {w : WorkerSide σ WH β} (hopen : w.endpoint.closed = false) : w.close.Mute := by
  have hclosed : ¬ w.endpoint.closed = true := by simp [hopen]
  rw [close, if_neg hclosed]
  exact ⟨rfl, rfl⟩

/-- The one side comes from the other, and has sent nothing. -/
structure Muted (w w' : WorkerSide σ WH β) : Prop where
  mute : w'.Mute
  queue : w'.link.toHost = w.link.toHost

namespace Muted
variable {w w' w'' : WorkerSide σ WH β}

lemma refl (h : w.Mute) : w.Muted w :=
  ⟨h, rfl⟩

lemma trans (h : w.Muted w') (h' : w'.Muted w'') : w.Muted w'' :=
  ⟨h'.mute, h'.queue.trans h.queue⟩

/-- The end stays closed, and the queue stays as it is. -/
lemma of_eq (h : w.Mute) (hclosed : w'.endpoint.closed = w.endpoint.closed)
    (hqueue : w'.link.toHost = w.link.toHost) : w.Muted w' :=
  ⟨⟨hclosed.trans h.closed, by rw [hqueue]; exact h.sender⟩, hqueue⟩

end Muted

variable [HasHeap σ] {ps : WorkerPrograms σ WH} {w w' : WorkerSide σ WH β}

/-! ## Running computations -/

namespace Mute
variable (h : w.Mute)
include h

omit [HasHeap σ] in
lemma not_joined : ¬ w.link.toHost.Joined := by
  intro hjoined
  have hsending := hjoined.sending
  rw [h.sender] at hsending
  cases hsending

omit [HasHeap σ] in
lemma post (m : Message) : w.post m = w :=
  post_of_not_joined h.not_joined m

omit [HasHeap σ] in
lemma withState (s : σ) : Mute { w with state := s } :=
  ⟨h.closed, h.sender⟩

lemma runStep {α : Type} (step : WorkerStep σ α) :
    w.runStep step = (.inl step.refused.1, { w with state := step.refused.2 }) := by
  induction step generalizing w with
  | done a s => rfl
  | ask call s resume ih =>
    unfold WorkerSide.runStep
    rw [startCall_of_closed (h.withState s).closed]
    exact ih _ _ (h.withState s)

/-- A handler comes to its end, and its answer is lost. -/
lemma runHandler (id : CallId) (step : WorkerStep σ (Except RemoteError Value)) :
    runHandler id w step = { w with state := step.refused.2 } := by
  unfold WorkerSide.runHandler
  rw [h.runStep]
  exact (h.withState _).post _

end Mute

/-- The worker side after it has served a call and sent nothing. -/
def served (ps : WorkerPrograms σ WH) (w : WorkerSide σ WH β) (target : Target) (args : Wire) :
    WorkerSide σ WH β :=
  match Inbound.of "worker" (HasHeap.heap w.state) (w.endpoint.handlerFor target) target args with
  | .refused _ => w
  | .run callable args h =>
    { w with state := (ps.callable callable args (HasHeap.setHeap h w.state)).refused.2 }

lemma Mute.serveCall (h : w.Mute) (id : CallId) (target : Target) (args : Wire) :
    w.serveCall ps id target args = w.served ps target args := by
  unfold WorkerSide.serveCall served
  cases Inbound.of "worker" (HasHeap.heap w.state) (w.endpoint.handlerFor target) target args with
  | refused e => exact h.post _
  | run callable args h' => exact h.runHandler _ _

/-! ## Moves -/

omit [HasHeap σ] in
/-- A mute end stays so whatever the thread does, and sends nothing. -/
lemma Mute.deed (h : w.Mute) (hdeed : Deed w w') : w.Muted w' := by
  cases hdeed with
  | issue s target args hopen hjoined => exact absurd hjoined h.not_joined
  | tell m hjoined => exact absurd hjoined h.not_joined
  | hangUp => exact .of_eq h h.closed.symm rfl
  | turn => exact .of_eq h rfl rfl
  | stack => exact .of_eq h rfl rfl
  | settle => exact .of_eq h rfl rfl
  | putAside => exact .of_eq h rfl rfl
  | receive => exact .of_eq h rfl rfl

omit [HasHeap σ] in
lemma Mute.deeds (h : w.Mute) (hdeeds : Deeds w w') : w.Muted w' :=
  hdeeds.keep (fun hdeed hu => hu.trans (hu.mute.deed hdeed)) (.refl h)

omit [HasHeap σ] in
lemma Mute.receiving (h : w.Mute) (q : Queue) :
    w.Muted { w with link := { w.link with toWorker := q } } :=
  .of_eq h rfl rfl

/-! ## Whatever happens -/

/-- Something happens on the worker's side, or whoever holds the host's end does something. -/
inductive Happens (ps : WorkerPrograms σ WH) : WorkerSide σ WH β → WorkerSide σ WH β → Prop where
  | thread {w w' : WorkerSide σ WH β} {more : List (Heard Unit WH)} (h : ThreadStep ps w more w') :
      Happens ps w w'
  | peer {w : WorkerSide σ WH β} {l : Link} (h : w.link.Handled l) :
      Happens ps w { w with link := l }

/-- Nothing is sent: messages only leave the queue to the host. -/
lemma Mute.happens (h : w.Mute) (hstep : Happens ps w w') :
    w'.Mute ∧ w'.link.toHost.messages <:+ w.link.toHost.messages := by
  have hmuted {u : WorkerSide σ WH β} (hu : w.Muted u) :
      u.Mute ∧ u.link.toHost.messages <:+ w.link.toHost.messages :=
    ⟨hu.mute, by rw [hu.queue]⟩
  cases hstep with
  | thread hstep =>
    cases hstep with
    | move hmove => exact hmuted (h.deeds (deeds_move hmove))
    | start hrest task => exact hmuted (h.deeds (deeds_start w task))
    | serve => exact hmuted (.of_eq h rfl rfl)
    | close =>
      rw [WorkerSide.close, if_pos h.closed]
      exact hmuted (.refl h)
    | manage hmanaged =>
      obtain ⟨-, hclosed, -⟩ := hmanaged.unchanged
      exact hmuted (.of_eq h hclosed rfl)
    | work => exact hmuted (.of_eq h rfl rfl)
  | peer hpeer =>
    cases hpeer with
    | send => exact hmuted (.of_eq h rfl rfl)
    | hangUp => exact hmuted (.of_eq h rfl rfl)
    | @take m q hreceive =>
      obtain ⟨hmessages, hsending, -⟩ := Queue.eq_of_receive hreceive
      refine ⟨⟨h.closed, hsending.trans h.sender⟩, ?_⟩
      rw [hmessages]
      exact List.suffix_cons _ _
    | leave => exact ⟨⟨h.closed, h.sender⟩, List.nil_suffix⟩

/-- An end that is mute stays so, and sends nothing any more. -/
lemma Mute.later (h : w.Mute) (later : Relation.ReflTransGen (Happens ps) w w') :
    w'.Mute ∧ w'.link.toHost.messages <:+ w.link.toHost.messages := by
  induction later with
  | refl => exact ⟨h, List.suffix_refl _⟩
  | tail _ hstep ih =>
    obtain ⟨hmute, hsuffix⟩ := ih.1.happens hstep
    exact ⟨hmute, hsuffix.trans ih.2⟩

/-! ## The queue of a mute end -/

/-- What the next move takes off the queue. -/
def taken (w : WorkerSide σ WH β) : List Message :=
  match w.top?.bind w.endpoint.aside? with
  | some _ => []
  | none =>
    match w.link.toWorker.receive with
    | .message m _ => [m]
    | _ => []

/-- The thread moves, one move after another, and takes these messages. -/
inductive Takes (ps : WorkerPrograms σ WH) :
    WorkerSide σ WH β → List Message → WorkerSide σ WH β → Prop where
  | stop (w : WorkerSide σ WH β) : Takes ps w [] w
  | move {w u v : WorkerSide σ WH β} {ms : List Message} (h : w.move? ps = some u)
      (later : Takes ps u ms v) : Takes ps w (w.taken ++ ms) v

/-- The thread looks for the next message, and nothing is put aside for the call on top. -/
structure Looks (w : WorkerSide σ WH β) : Prop where
  listening : w.isListening = true
  aside : w.top?.bind w.endpoint.aside? = none

omit [HasHeap σ] in
lemma isListening_of_serving (h : w.thread.base = .serving) : w.isListening = true := by
  unfold isListening
  split
  · rfl
  · rfl
  · rfl
  · next hbase => exact absurd h hbase

/-- The next message is taken. -/
lemma Looks.move (h : w.Looks) {m : Message} {later : List Message}
    (hqueue : w.link.toWorker.messages = m :: later) :
    w.move? ps = some ({ w with link := { w.link with
      toWorker := { w.link.toWorker with messages := later } } }.take ps m) := by
  unfold WorkerSide.move?
  rw [if_pos h.listening, h.aside, Queue.receive, hqueue]

lemma Takes.append {u v : WorkerSide σ WH β} {ms ms' : List Message} (first : Takes ps w ms u)
    (later : Takes ps u ms' v) : Takes ps w (ms ++ ms') v := by
  induction first with
  | stop w => exact later
  | move hmove _ ih =>
    rw [List.append_assoc]
    exact .move hmove (ih later)

/-- A handler that goes on comes to its end, and the others wait as before. -/
lemma Mute.resumeTop_eq (h : w.Mute) {f : Frame σ} {rest : List (Frame σ)}
    (hframes : w.thread.frames = f :: rest) (o : CallOutcome) :
    w.resumeTop o = { w with
      thread := { w.thread with frames := rest, endpoint := w.endpoint.settle f.waiting }
      state := (f.resume o w.state).refused.2 } := by
  have hpop : w.popTop = { w with
      thread := { w.thread with frames := rest, endpoint := w.endpoint.settle f.waiting } } := by
    rw [WorkerSide.popTop, hframes]
  unfold WorkerSide.resumeTop
  rw [hframes]
  dsimp only
  rw [(h.deeds w.deeds_popTop).mute.runHandler, hpop]

variable (ps)

/-- Handlers for which something is put aside come to their ends, and nothing is taken. -/
lemma Mute.exists_looks (h : w.Mute) (hserving : w.thread.base = .serving) :
    ∃ v : WorkerSide σ WH β, Takes ps w [] v ∧ v.Mute ∧ v.thread.base = .serving ∧ v.Looks ∧
      v.link.toWorker = w.link.toWorker := by
  generalize hframes : w.thread.frames = frames
  induction frames generalizing w with
  | nil =>
    have hnone : w.top?.bind w.endpoint.aside? = none := by simp [top?, hframes, hserving]
    exact ⟨w, .stop w, h, hserving, ⟨isListening_of_serving hserving, hnone⟩, rfl⟩
  | cons f rest ih =>
    cases haside : w.top?.bind w.endpoint.aside? with
    | none => exact ⟨w, .stop w, h, hserving, ⟨isListening_of_serving hserving, haside⟩, rfl⟩
    | some o =>
      have hmove : w.move? ps = some (w.resumeTop o) := by
        unfold WorkerSide.move?
        rw [if_pos (isListening_of_serving hserving), haside]
      have htaken : w.taken = [] := by
        rw [taken, haside]
      have hresume := h.resumeTop_eq hframes o
      obtain ⟨v, htakes, hv, hbase, hlooks, hqueue⟩ :=
        ih (h.deeds (w.deeds_resumeTop o)).mute (by rw [hresume]; exact hserving) (by rw [hresume])
      refine ⟨v, ?_, hv, hbase, hlooks, by rw [hqueue, hresume]⟩
      have hmoved := Takes.move hmove htakes
      rwa [htaken] at hmoved

/-- What is in the queue of a loop that serves is taken, in its order. -/
lemma Mute.exists_takes {earlier later : List Message} (h : w.Mute)
    (hserving : w.thread.base = .serving)
    (hqueue : w.link.toWorker.messages = earlier ++ later) :
    ∃ v : WorkerSide σ WH β, Takes ps w earlier v ∧ v.Mute ∧ v.thread.base = .serving ∧ v.Looks ∧
      v.link.toWorker.messages = later := by
  induction earlier generalizing w with
  | nil =>
    obtain ⟨v, htakes, hv, hbase, hlooks, hlink⟩ := h.exists_looks ps hserving
    exact ⟨v, htakes, hv, hbase, hlooks, by rw [hlink, hqueue]; rfl⟩
  | cons m earlier ih =>
    obtain ⟨u, hbefore, hu, hbase, hlooks, hlink⟩ := h.exists_looks ps hserving
    have hmessages : u.link.toWorker.messages = m :: (earlier ++ later) := by
      rw [hlink, hqueue]
      rfl
    have hmove : u.move? ps = some _ := hlooks.move hmessages
    have htaken : u.taken = [m] := by
      rw [taken, hlooks.aside, Queue.receive, hmessages]
    generalize hreceiving : ({ u with link := { u.link with
      toWorker := { u.link.toWorker with messages := earlier ++ later } } } : WorkerSide σ WH β) =
        u' at hmove
    have hu' : u.Muted u' := hreceiving ▸ hu.receiving _
    -- taking a message leaves the loop and the rest of the queue as they are
    have hgrown := take_grown ps u' m
    have hserving' : (u'.take ps m).thread.base = .serving := by
      have hgoes := hgrown.base
      rw [← hreceiving] at hgoes ⊢
      exact hgoes.serving hbase
    obtain ⟨v, hlater, hv⟩ := ih (hu'.mute.deeds (deeds_take ps u' m)).mute hserving' (by
      rw [hgrown.queue, ← hreceiving])
    refine ⟨v, ?_, hv⟩
    have hmoved := Takes.move hmove hlater
    rw [htaken] at hmoved
    exact hbefore.append hmoved

/-! ## After closing -/

/-- What a worker's end does from some moment on. -/
structure ServesOn (w : WorkerSide σ WH β) : Prop where
  /-- it sends nothing any more, whatever happens -/
  silent : ∀ w', Relation.ReflTransGen (Happens ps) w w' →
    w'.link.toHost.messages <:+ w.link.toHost.messages
  /-- and its own calls fail at once -/
  refuses : ∀ w', Relation.ReflTransGen (Happens ps) w w' → ∀ c,
    w'.startCall c = (.error .closed, w')
  /-- but whenever the thread looks for the next message, be it in its loop or while it waits for a
  call, and finds a call, the handler runs, to its end -/
  serves : ∀ w', Relation.ReflTransGen (Happens ps) w w' → w'.Looks →
    ∀ id target args later, w'.link.toWorker.messages = .call id target args :: later →
      w'.move? ps = some ({ w' with link := { w'.link with
        toWorker := { w'.link.toWorker with messages := later } } }.served ps target args)
  /-- and the loop gets to every message of its queue -/
  reaches : ∀ w', Relation.ReflTransGen (Happens ps) w w' → w'.thread.base = .serving →
    ∀ earlier later, w'.link.toWorker.messages = earlier ++ later →
      ∃ v, Takes ps w' earlier v ∧ v.Looks ∧ v.link.toWorker.messages = later

/-- Closing a worker's end mutes it. It does not drop the calls of its queue, nor those that come
later: their handlers run. -/
theorem close_serves_on (hopen : w.endpoint.closed = false) : ServesOn ps w.close where
  silent w' hlater := ((mute_close hopen).later hlater).2
  refuses w' hlater c := startCall_of_closed ((mute_close hopen).later hlater).1.closed c
  serves w' hlater hlooks id target args later hqueue := by
    have hmute := ((mute_close hopen).later hlater).1
    rw [hlooks.move hqueue]
    exact congrArg some ((hmute.receiving _).mute.serveCall id target args)
  reaches w' hlater hserving earlier later hqueue := by
    obtain ⟨v, htakes, -, -, hlooks, hmessages⟩ :=
      ((mute_close hopen).later hlater).1.exists_takes ps hserving hqueue
    exact ⟨v, htakes, hlooks, hmessages⟩

/-- Handlers that leave a list behind. -/
def listing : WorkerPrograms Heap Unit where
  handler _ _ s := .done (.ok .null) (s.newList []).2
  function _ _ := pure (.ok .null)

/-- An end with a method. -/
def withMethod : WorkerEndpoint Unit :=
  { (WorkerEndpoint.new "worker" : WorkerEndpoint Unit) with handlers := ⟨[("h", ())]⟩ }

/-- A loop that serves, with a call of the method in its queue. -/
def withCall : WorkerSide Heap Unit Unit where
  thread := ⟨withMethod, [], .serving⟩
  link := { Link.new with toWorker := ⟨[.call ⟨1⟩ (.method "h") ⟨.null, []⟩], true, true⟩ }
  state := .empty

theorem close_serves_on_withCall :
    withCall.endpoint.closed = false ∧ ServesOn listing withCall.close :=
  ⟨rfl, close_serves_on listing rfl⟩

/-- A call is in the queue, the end is closed, and then the handler of the call runs. -/
theorem queued_call_not_dropped :
    PeerRun listing "worker" .empty withCall ([] : List (Heard Unit Unit)) ∧
      ∃ w, withCall.close.move? listing = some w ∧ w.link.toWorker.messages = [] ∧
        w.state ≠ withCall.close.state := by
  constructor
  · have hregister : (WorkerEndpoint.new "worker").register "h" () = .ok withMethod := rfl
    have hregistered : PeerRun listing "worker" .empty
        (⟨⟨withMethod, [], .idle⟩, .new, .empty⟩ : WorkerSide Heap Unit Unit)
        ([] ++ [] : List (Heard Unit Unit)) :=
      .step .new (.manage (.register hregister))
    exact (hregistered.step (.serve rfl)).peer (.send rfl)
  · have hmove : withCall.close.move? listing = some _ := rfl
    refine ⟨_, hmove, rfl, fun hstate => ?_⟩
    cases congrArg Heap.size hstate

end WorkerSide
end WorkerHost
