import WorkerHost.Proofs.Channel.Stack

/-!
# A worker thread whose peer is gone

When the host's sender is gone, the thread takes what is left in its queue, and then it finds the
end of the queue at every look. Each of its moves uses something up: a message, an answer that was
put aside, a call on the stack, or the loop that serves. So it comes to rest with an empty stack.

* `WorkerSide.Topped`: what running a computation does to the stack below it;
* `WorkerSide.left`, `WorkerSide.Moved.spent`: how many moves a thread has left without its peer;
* `WorkerSide.Moves.returned`: what the calls on the stack return once the queue is empty;
* `WorkerSide.PeerRun.closed_of_ended`: an end that has seen the end of its queue stays closed.
-/

namespace WorkerHost

/-- What a thread is doing at the bottom of its stack. -/
inductive Base.Use where
  | nothing
  | computing
  | serving

def Base.use {σ β : Type} : Base σ β → Base.Use
  | .idle => .nothing
  | .waiting .. | .finished _ => .computing
  | .serving | .ended => .serving

/-- The bottom of a stack is as it was, or the computation there has gone on. -/
inductive Base.GoesOn {σ β : Type} (b : Base σ β) : Base σ β → Prop where
  | same : GoesOn b b
  | computing {b'} (h : b.use = .computing) (h' : b'.use = .computing) : GoesOn b b'

lemma Base.GoesOn.use {σ β : Type} {b b' : Base σ β} (h : b.GoesOn b') : b'.use = b.use := by
  cases h with
  | same => rfl
  | computing h h' => rw [h, h']

lemma Base.GoesOn.ended {σ β : Type} {b : Base σ β} (h : b.GoesOn .ended) : b = .ended := by
  cases h with
  | same => rfl
  | computing h h' => cases h'

lemma Base.GoesOn.serving {σ β : Type} {b b' : Base σ β} (h : b.GoesOn b')
    (hserving : b = .serving) : b' = .serving := by
  cases h with
  | same => exact hserving
  | computing h h' =>
    rw [hserving] at h
    cases h

namespace WorkerSide

/-! ## Running on top of a stack -/

section
variable {σ HH WH β : Type}

/-- A computation has run on top of a stack of calls: it has ended, or it waits on top for a call
that an open end has sent. -/
structure Topped (e : WorkerEndpoint WH) (q : Queue) (ids : List CallId)
    (w : WorkerSide σ WH β) : Prop where
  queue : w.link.toWorker = q
  closed : w.endpoint.closed = e.closed
  stash : w.endpoint.stash = e.stash
  calls : w.callIds = ids ∨ e.closed = false ∧ ∃ id, w.callIds = id :: ids

variable {e : WorkerEndpoint WH} {q : Queue} {id : CallId} {ids rest : List CallId}
  {w w' : WorkerSide σ WH β} {log more : List (Heard HH WH)}

lemma Topped.length_le (h : Topped e q ids w) : w.callIds.length ≤ ids.length + 1 := by
  rcases h.calls with heq | ⟨-, id, heq⟩
  · rw [heq]
    omega
  · rw [heq, List.length_cons]

/-- A call that returns takes the answer with it that was put aside for it. -/
lemma length_settle_lt {o : CallOutcome} (haside : e.aside? id = some o) :
    (e.settle id).stash.length < e.stash.length := by
  obtain ⟨entry, hfind, -⟩ := Option.map_eq_some_iff.1 haside
  refine List.length_filter_lt_length_iff_exists.2 ⟨entry, List.mem_of_find?_eq_some hfind, ?_⟩
  simpa using List.find?_some hfind

lemma length_settle_le : (e.settle id).stash.length ≤ e.stash.length :=
  List.length_filter_le _ _

lemma length_putAside_le (o : CallOutcome) :
    (e.putAside id o).stash.length ≤ e.stash.length + 1 :=
  Nat.succ_le_succ (List.length_filter_le _ _)

variable [HasHeap σ]

lemma handler_topped (w : WorkerSide σ WH β) (answering : CallId)
    (step : WorkerStep σ (Except RemoteError Value)) :
    Topped w.endpoint w.link.toWorker w.callIds (w.runHandler answering step) ∧
      (w.runHandler answering step).thread.base = w.thread.base := by
  unfold runHandler
  have hpassed := w.runStep_passed step
  generalize w.runStep step = r at hpassed
  cases hpassed with
  | ended result n s hnext =>
    dsimp only
    rcases post_cases (w.turn n s) (answerTo (HasHeap.heap s) answering result) with heq | heq
    · rw [show HasHeap.heap (w.turn n s).state = HasHeap.heap s from rfl, heq]
      exact ⟨⟨rfl, rfl, rfl, .inl rfl⟩, rfl⟩
    · rw [show HasHeap.heap (w.turn n s).state = HasHeap.heap s from rfl, heq]
      exact ⟨⟨rfl, rfl, rfl, .inl rfl⟩, rfl⟩
  | blocked call s args resume hopen hjoined hpack =>
    exact ⟨⟨rfl, rfl, rfl, .inr ⟨hopen, _, rfl⟩⟩, rfl⟩

lemma base_topped (hempty : w.callIds = []) (step : WorkerStep σ β) :
    Topped w.endpoint w.link.toWorker [] (w.runBase step) ∧
      (w.runBase step).thread.base.use = .computing := by
  have hframes : w.thread.frames = [] := List.map_eq_nil_iff.1 (List.append_eq_nil_iff.1 hempty).1
  unfold runBase
  have hpassed := w.runStep_passed step
  generalize w.runStep step = r at hpassed
  cases hpassed with
  | ended b n s hnext =>
    refine ⟨⟨rfl, rfl, rfl, .inl ?_⟩, rfl⟩
    show w.thread.frames.map (·.waiting) ++ [] = []
    rw [hframes]
    rfl
  | blocked call s args resume hopen hjoined hpack =>
    refine ⟨⟨rfl, rfl, rfl, .inr ⟨hopen, ⟨w.endpoint.nextId⟩, ?_⟩⟩, rfl⟩
    show w.thread.frames.map (·.waiting) ++ [_] = [_]
    rw [hframes]
    rfl

/-- The call on top returns, and what made it runs on top of the others. -/
lemma resume_topped (htop : w.callIds = id :: rest) (o : CallOutcome) :
    Topped (w.endpoint.settle id) w.link.toWorker rest (w.resumeTop o) ∧
      w.thread.base.GoesOn (w.resumeTop o).thread.base := by
  obtain ⟨hcalls, hendpoint, hlink⟩ := popTop_eq htop
  rcases resume_cases Unit w o with ⟨f, others, hframes, heq, -⟩ |
    ⟨a, resume, hframes, hbase, heq, -⟩ | ⟨hnone, -⟩
  · obtain ⟨rfl, -⟩ : f.waiting = id ∧ _ = rest := by
      rw [callIds, hframes] at htop
      exact List.cons.inj htop
    have hbase : w.popTop.thread.base = w.thread.base := by simp only [popTop, hframes]
    obtain ⟨htopped, hsame⟩ := handler_topped w.popTop f.answering (f.resume o w.state)
    rw [hcalls, hendpoint, hlink] at htopped
    rw [heq, ← hbase, ← hsame]
    exact ⟨htopped, .same⟩
  · obtain ⟨rfl, hrest⟩ : a = id ∧ [] = rest := by
      rw [callIds, hframes, hbase] at htop
      exact List.cons.inj htop
    obtain ⟨htopped, huse⟩ := base_topped (hcalls.trans hrest.symm) (resume o w.state)
    rw [hendpoint, hlink, hrest] at htopped
    rw [heq, hbase]
    exact ⟨htopped, .computing rfl huse⟩
  · rw [hnone] at htop
    cases htop

lemma completed_mem_resumeEvents (htop : w.callIds = id :: rest) (o : CallOutcome) :
    (.ofWorker id (.completed o) : Event HH WH) ∈ w.resumeEvents o := by
  rcases resume_cases HH w o with ⟨f, others, hframes, -, hevents⟩ |
    ⟨a, resume, hframes, hbase, -, hevents⟩ | ⟨hnone, -, -⟩
  · rw [callIds, hframes] at htop
    obtain ⟨rfl, -⟩ := List.cons.inj htop
    rw [hevents]
    exact List.mem_cons_self
  · rw [callIds, hframes, hbase] at htop
    obtain ⟨rfl, -⟩ := List.cons.inj htop
    rw [hevents]
    exact List.mem_cons_self
  · rw [hnone] at htop
    cases htop

/-! ## The moves that are left -/

omit [HasHeap σ] in
/-- How many moves a thread has left at most when nothing more comes: a message may push a call or
put an answer aside, and then it is gone. -/
def left (w : WorkerSide σ WH β) : ℕ :=
  2 * w.link.toWorker.messages.length + w.callIds.length + w.endpoint.stash.length +
    w.isListening.toNat

/-- What running computations keeps, and by how much the calls and the answers that were put aside
may grow meanwhile. -/
structure Grown (w w' : WorkerSide σ WH β) (n : ℕ) : Prop where
  queue : w'.link.toWorker = w.link.toWorker
  closed : w.endpoint.closed = true → w'.endpoint.closed = true
  base : w.thread.base.GoesOn w'.thread.base
  length : w'.callIds.length + w'.endpoint.stash.length ≤
    w.callIds.length + w.endpoint.stash.length + n

omit [HasHeap σ] in
lemma Grown.refl (w : WorkerSide σ WH β) (n : ℕ) : w.Grown w n :=
  ⟨rfl, id, .same, Nat.le_add_right _ _⟩

omit [HasHeap σ] in
lemma post_grown (w : WorkerSide σ WH β) (m : Message) (n : ℕ) : w.Grown (w.post m) n := by
  rcases post_cases w m with heq | heq
  · rw [heq]
    exact .refl w n
  · rw [heq]
    exact ⟨rfl, id, .same, Nat.le_add_right _ _⟩

lemma resume_grown (htop : w.callIds = id :: rest) (o : CallOutcome) :
    w.Grown (w.resumeTop o) 0 := by
  obtain ⟨htopped, hbase⟩ := resume_topped htop o
  refine ⟨htopped.queue, fun hclosed => htopped.closed.trans hclosed, hbase, ?_⟩
  have hcalls := htopped.length_le
  have hstash : (w.endpoint.settle id).stash.length ≤ w.endpoint.stash.length := length_settle_le
  rw [htopped.stash, htop, List.length_cons]
  omega

lemma take_grown (ps : WorkerPrograms σ WH) (w : WorkerSide σ WH β) (m : Message) :
    w.Grown (w.take ps m) 1 := by
  have hreply : w.Grown (w.takeReply m) 1 := by
    rcases reply_cases Unit w m with
      ⟨o, h', -, htop, heq, -⟩ | ⟨o, h', -, -, heq, -⟩ | ⟨-, heq, -⟩
    · rw [top?_eq] at htop
      obtain ⟨rest, hcalls⟩ := List.head?_eq_some_iff.1 htop
      have hcalls' : callIds { w with state := HasHeap.setHeap h' w.state } = m.id :: rest := hcalls
      have hgrown := resume_grown hcalls' o
      rw [heq]
      exact ⟨hgrown.queue, hgrown.closed, hgrown.base, hgrown.length.trans (Nat.le_succ _)⟩
    · rw [heq]
      refine ⟨rfl, id, .same, ?_⟩
      have hstash : (w.endpoint.putAside m.id o).stash.length ≤ w.endpoint.stash.length + 1 :=
        length_putAside_le o
      show w.callIds.length + (w.endpoint.putAside m.id o).stash.length ≤ _
      omega
    · rw [heq]
      exact .refl w 1
  cases m with
  | reply => exact hreply
  | fail => exact hreply
  | call a target args =>
    show w.Grown (w.serveCall ps a target args) 1
    rcases serve_cases Unit ps w a target args with
      ⟨e, -, heq, -⟩ | ⟨callable, args', h', -, heq, -⟩
    · rw [heq]
      exact post_grown w _ 1
    · obtain ⟨htopped, hbase⟩ := handler_topped w a
        (ps.callable callable args' (HasHeap.setHeap h' w.state))
      rw [heq]
      refine ⟨htopped.queue, fun hclosed => htopped.closed.trans hclosed, hbase ▸ .same, ?_⟩
      have hcalls := htopped.length_le
      rw [htopped.stash]
      omega

omit [HasHeap σ] in
/-- With no calls on the stack it is the loop that serves that listens. -/
lemma serving_of_nil (hlisten : w.isListening = true) (hnil : w.callIds = []) :
    w.thread.frames = [] ∧ w.thread.base = .serving := by
  have hframes : w.thread.frames = [] := List.map_eq_nil_iff.1 (List.append_eq_nil_iff.1 hnil).1
  refine ⟨hframes, ?_⟩
  cases hbase : w.thread.base with
  | serving => rfl
  | waiting => simp [callIds, hframes, hbase] at hnil
  | idle => simp [isListening, hframes, hbase] at hlisten
  | finished => simp [isListening, hframes, hbase] at hlisten
  | ended => simp [isListening, hframes, hbase] at hlisten

/-- Once the end of the queue is found the end is closed, and there is a call less, or the loop that
serves is over. -/
lemma disconnect_spent (hlisten : w.isListening = true) :
    w.disconnect.link.toWorker = w.link.toWorker ∧ w.disconnect.endpoint.closed = true ∧
      w.disconnect.thread.base.use = w.thread.base.use ∧
      w.disconnect.callIds.length + w.disconnect.endpoint.stash.length +
        w.disconnect.isListening.toNat < w.callIds.length + w.endpoint.stash.length + 1 := by
  rcases disconnect_cases Unit w with ⟨id, rest, hcalls, heq, -⟩ | ⟨hcalls, heq, -⟩
  · have hcalls' : w.hungUp.callIds = id :: rest := hcalls
    obtain ⟨htopped, hbase⟩ := resume_topped hcalls' (.error .closed)
    rw [heq, hcalls]
    have hclosed : (w.hungUp.resumeTop (.error .closed)).endpoint.closed = true :=
      htopped.closed
    have hids : (w.hungUp.resumeTop (.error .closed)).callIds = rest :=
      htopped.calls.resolve_right fun hopen => by cases hopen.1
    have hstash : (w.endpoint.settle id).stash.length ≤ w.endpoint.stash.length := length_settle_le
    have hle := Bool.toNat_le (w.hungUp.resumeTop (.error .closed)).isListening
    refine ⟨htopped.queue, hclosed, hbase.use, ?_⟩
    rw [hids, htopped.stash, List.length_cons]
    show rest.length + (w.endpoint.settle id).stash.length + _ < _
    omega
  · obtain ⟨hframes, hbase⟩ := serving_of_nil hlisten hcalls
    have hids : w.disconnect.callIds = [] := by
      rw [heq]
      show w.thread.frames.map (·.waiting) ++ [] = []
      rw [hframes]
      rfl
    have hquiet : w.disconnect.isListening = false := by
      rw [heq]
      simp [isListening, hungUp, setEndpoint, hframes]
    rw [hids, hquiet, heq, hbase, hcalls]
    refine ⟨rfl, rfl, rfl, ?_⟩
    show 0 + w.endpoint.stash.length + 0 < 0 + w.endpoint.stash.length + 1
    omega

/-! ## Moves -/

variable {ps : WorkerPrograms σ WH}

lemma isListening_of_move (h : w.move? ps = some w') : w.isListening = true := by
  by_contra hnot
  unfold move? at h
  rw [if_neg hnot] at h
  cases h

/-- Every move keeps what the thread is for, and uses something up. -/
lemma Moved.spent (h : Moved ps w more w') (hlisten : w.isListening = true) :
    w'.link.toWorker.sending = w.link.toWorker.sending ∧
      (w.endpoint.closed = true → w'.endpoint.closed = true) ∧
      w'.thread.base.use = w.thread.base.use ∧ w'.left < w.left := by
  have hle := Bool.toNat_le w'.isListening
  have hone : w.isListening.toNat = 1 := congrArg Bool.toNat hlisten
  unfold left
  cases h with
  | @aside id rest o hcalls haside =>
    obtain ⟨htopped, hbase⟩ := resume_topped hcalls o
    have hlength := htopped.length_le
    have hstash := length_settle_lt haside
    refine ⟨congrArg Queue.sending htopped.queue, fun hclosed => htopped.closed.trans hclosed,
      hbase.use, ?_⟩
    rw [htopped.queue, htopped.stash, hcalls, List.length_cons]
    omega
  | @taken m q hnone hreceive =>
    obtain ⟨hmessages, hsending, -⟩ := Queue.eq_of_receive hreceive
    have hgrown := take_grown ps { w with link := { w.link with toWorker := q } } m
    generalize take ps { w with link := { w.link with toWorker := q } } m = after at hgrown hle ⊢
    refine ⟨(congrArg Queue.sending hgrown.queue).trans hsending, hgrown.closed,
      hgrown.base.use, ?_⟩
    have hlength : after.callIds.length + after.endpoint.stash.length ≤
        w.callIds.length + w.endpoint.stash.length + 1 := hgrown.length
    rw [hgrown.queue, hmessages, List.length_cons]
    dsimp only
    omega
  | ended hnone hreceive =>
    obtain ⟨hqueue, hclosed, huse, hlength⟩ := disconnect_spent hlisten
    refine ⟨congrArg Queue.sending hqueue, fun _ => hclosed, huse, ?_⟩
    rw [hqueue]
    omega

/-- A thread whose peer is gone never has to wait for a message. -/
lemma exists_move (hgone : w.link.toWorker.sending = false) (hlisten : w.isListening = true) :
    ∃ w', w.move? ps = some w' := by
  unfold move?
  rw [if_pos hlisten]
  cases w.top?.bind w.endpoint.aside? with
  | some o => exact ⟨_, rfl⟩
  | none =>
    cases hreceive : w.link.toWorker.receive with
    | message m q => exact ⟨_, rfl⟩
    | waiting => exact absurd hreceive (Queue.receive_ne_waiting hgone)
    | ended => exact ⟨_, rfl⟩

/-- The thread moves, one move after another. -/
inductive Moves (ps : WorkerPrograms σ WH) :
    WorkerSide σ WH β → List (Heard HH WH) → WorkerSide σ WH β → Prop where
  | stop (a : WorkerSide σ WH β) : Moves ps a [] a
  | move {a b c : WorkerSide σ WH β} {more} (h : a.move? ps = some b) (later : Moves ps b more c) :
      Moves ps a (a.heard ++ (a.moveEvents ps).map .event ++ more) c

/-- A thread whose peer is gone comes to rest. -/
lemma exists_moves (hgone : w.link.toWorker.sending = false) {n : ℕ} (hn : w.left ≤ n) :
    (w.advance ps n).isListening = false ∧
      ∃ more : List (Heard HH WH), Moves ps w more (w.advance ps n) := by
  induction n generalizing w with
  | zero =>
    refine ⟨?_, [], .stop w⟩
    have hzero : w.isListening.toNat = 0 := by
      unfold left at hn
      omega
    exact Bool.toNat_eq_zero.1 hzero
  | succ n ih =>
    unfold advance
    cases hmove : w.move? ps with
    | none =>
      refine ⟨?_, [], .stop w⟩
      by_contra hlisten
      obtain ⟨w', hsome⟩ : ∃ w', w.move? ps = some w' :=
        exists_move hgone (Bool.eq_true_of_not_eq_false hlisten)
      cases hmove.symm.trans hsome
    | some w' =>
      obtain ⟨hsending, -, -, hless⟩ :=
        (moved_of_move hmove : Moved ps w ((w.heard : List (Heard HH WH)) ++ _) w').spent
          (isListening_of_move hmove)
      obtain ⟨hrest, more, hmoves⟩ := ih (w := w') (hsending.trans hgone) (by omega)
      exact ⟨hrest, _, .move hmove hmoves⟩

/-! ## What calls return then -/

/-- When nothing is left in the queue, the call on top returns the answer that was put aside for it,
or else that the channel is closed, and the calls below it wait as before. -/
lemma Moved.pops (h : Moved ps w more w') (hempty : w.link.toWorker.messages = [])
    (htop : w.callIds = id :: rest) :
    .event (.ofWorker id (.completed ((w.endpoint.aside? id).getD (.error .closed)))) ∈ more ∧
      w'.link.toWorker = w.link.toWorker ∧ w'.endpoint.stash = (w.endpoint.settle id).stash ∧
      ∀ a ∈ rest, a ∈ w'.callIds := by
  have hbelow {e : WorkerEndpoint WH} {q : Queue} {u : WorkerSide σ WH β}
      (htopped : Topped e q rest u) : ∀ a ∈ rest, a ∈ u.callIds := by
    intro a ha
    rcases htopped.calls with heq | ⟨-, b, heq⟩
    · rw [heq]
      exact ha
    · rw [heq]
      exact List.mem_cons_of_mem _ ha
  cases h with
  | @aside a rest' o hcalls haside =>
    obtain ⟨rfl, rfl⟩ := List.cons.inj (hcalls.symm.trans htop)
    obtain ⟨htopped, -⟩ := resume_topped hcalls o
    refine ⟨?_, htopped.queue, htopped.stash, hbelow htopped⟩
    rw [haside]
    exact List.mem_map_of_mem (completed_mem_resumeEvents hcalls o)
  | taken hnone hreceive =>
    obtain ⟨hmessages, -⟩ := Queue.eq_of_receive hreceive
    cases hmessages.symm.trans hempty
  | ended hnone hreceive =>
    have haside : w.endpoint.aside? id = none := by
      rw [top?_eq, htop] at hnone
      exact hnone
    have htop' : w.hungUp.callIds = id :: rest := htop
    obtain ⟨htopped, -⟩ := resume_topped htop' (.error .closed)
    rcases disconnect_cases HH w with ⟨-, -, -, heq, hevents⟩ | ⟨hnil, -⟩
    · rw [heq, hevents, haside]
      refine ⟨List.mem_cons_of_mem _ ?_, htopped.queue, htopped.stash, hbelow htopped⟩
      exact List.mem_map_of_mem (completed_mem_resumeEvents htop' _)
    · cases htop.symm.trans hnil

/-- Every call on the stack returns the answer that was put aside for it, or else that the channel
is closed. -/
lemma Moves.returned (moves : Moves ps w more w') (hsound : Sound w log)
    (hempty : w.link.toWorker.messages = []) (hrest : w'.isListening = false)
    (hbound : (issuedIn (log ++ more)).length ≤ 2 ^ 64) :
    ∀ id ∈ w.callIds,
      .event (.ofWorker id (.completed ((w.endpoint.aside? id).getD (.error .closed)))) ∈ more := by
  induction moves generalizing log with
  | stop w =>
    rw [(callIds_of_not_listening hrest).2]
    exact fun id hid => absurd hid List.not_mem_nil
  | @move w u w' more hmove later ih =>
    intro id hid
    rw [← List.append_assoc] at hbound
    have hmoved : Moved ps w ((w.heard : List (Heard HH WH)) ++ (w.moveEvents ps).map .event) u :=
      moved_of_move hmove
    cases hcalls : w.callIds with
    | nil =>
      rw [hcalls] at hid
      exact absurd hid List.not_mem_nil
    | cons top rest =>
      obtain ⟨htop, hqueue, hstash, hbelow⟩ := hmoved.pops hempty hcalls
      rw [hcalls] at hid
      rcases List.mem_cons.1 hid with rfl | hin
      · exact List.mem_append_left _ htop
      · have hne : id ≠ top := by
          have hdistinct := hsound.accounts.distinct
          rw [hcalls] at hdistinct
          exact fun heq => (List.nodup_cons.1 hdistinct).1 (heq ▸ hin)
        have haside : u.endpoint.aside? id = w.endpoint.aside? id := by
          rw [← aside?_settle (e := w.endpoint) hne, WorkerEndpoint.aside?, hstash]
          rfl
        have hlater := ih (hsound.move hmove (bound_of_append hbound)) (hqueue ▸ hempty) hrest
          hbound id (hbelow id hin)
        rw [haside] at hlater
        exact List.mem_append_right _ hlater

lemma Moves.use (moves : Moves ps w more w') : w'.thread.base.use = w.thread.base.use := by
  induction moves with
  | stop w => rfl
  | @move w u w' more hmove later ih =>
    have hmoved : Moved ps w ((w.heard : List (Heard HH WH)) ++ (w.moveEvents ps).map .event) u :=
      moved_of_move hmove
    obtain ⟨-, -, huse, -⟩ := hmoved.spent (isListening_of_move hmove)
    exact ih.trans huse

lemma Moves.run {name : String} {state : σ} (moves : Moves ps w more w')
    (before : PeerRun ps name state w log) : PeerRun ps name state w' (log ++ more) := by
  induction moves generalizing log with
  | stop w =>
    rw [List.append_nil]
    exact before
  | move hmove later ih =>
    rw [← List.append_assoc]
    exact ih (before.step (.move hmove))

omit [HasHeap σ] in
/-- A thread at rest has come to the end of what it was for. -/
lemma base_of_not_listening (h : w.isListening = false) :
    (w.thread.base.use = .serving → w.thread.base = .ended) ∧
      (w.thread.base.use = .computing → ∃ b, w.thread.base = .finished b) := by
  have hframes := (callIds_of_not_listening h).1
  unfold isListening at h
  rw [hframes] at h
  cases hbase : w.thread.base with
  | idle => exact ⟨nofun, nofun⟩
  | finished b => exact ⟨nofun, fun _ => ⟨b, rfl⟩⟩
  | ended => exact ⟨fun _ => rfl, nofun⟩
  | waiting =>
    rw [hbase] at h
    cases h
  | serving =>
    rw [hbase] at h
    cases h

/-! ## Closed ends -/

/-- A closed end refuses every call, and no message is sent. -/
lemma startCall_of_closed (hclosed : w.endpoint.closed = true) (c : HostCall) :
    w.startCall c = (.error .closed, w) :=
  if_pos hclosed

lemma Moved.closed_of_ended (h : Moved ps w more w') (hlisten : w.isListening = true)
    (hended : .ended ∈ more) : w'.endpoint.closed = true := by
  have hevents (evs : List (Event HH WH)) : Heard.ended ∉ evs.map .event := by simp
  cases h with
  | aside => exact absurd hended (hevents _)
  | taken => exact absurd ((List.mem_cons.1 hended).resolve_left nofun) (hevents _)
  | ended => exact (disconnect_spent hlisten).2.1

/-- What happens on the worker's side does not touch the host's sender, and no end is opened again.
-/
lemma ThreadStep.keeps (h : ThreadStep ps w more w') :
    w'.link.toWorker.sending = w.link.toWorker.sending ∧
      (w.endpoint.closed = true → w'.endpoint.closed = true) ∧
      (.ended ∈ more → w'.endpoint.closed = true) := by
  cases h with
  | move hmove =>
    have hmoved : Moved ps w ((w.heard : List (Heard HH WH)) ++ (w.moveEvents ps).map .event) w' :=
      moved_of_move hmove
    have hlisten := isListening_of_move hmove
    obtain ⟨hsending, hclosed, -⟩ := hmoved.spent hlisten
    exact ⟨hsending, hclosed, hmoved.closed_of_ended hlisten⟩
  | start hrest task =>
    obtain ⟨htopped, -⟩ := base_topped (callIds_of_not_listening hrest).2 (task w.state)
    exact ⟨congrArg Queue.sending htopped.queue, fun hclosed => htopped.closed.trans hclosed,
      by simp⟩
  | serve => exact ⟨rfl, id, by simp⟩
  | close =>
    refine ⟨?_, ?_, by simp⟩
    · unfold WorkerSide.close
      split
      · rfl
      · rfl
    · intro hclosed
      rw [WorkerSide.close, if_pos hclosed]
      exact hclosed
  | manage hmanaged =>
    obtain ⟨-, hclosed, -⟩ := hmanaged.unchanged
    exact ⟨rfl, fun hopen => hclosed.trans hopen, by simp⟩
  | work => exact ⟨rfl, id, by simp⟩

/-- An end that has seen the end of its queue is closed, and stays so. -/
lemma PeerRun.closed_of_ended {name : String} {state : σ} (run : PeerRun ps name state w log)
    (hended : .ended ∈ log) : w.endpoint.closed = true := by
  induction run with
  | new => exact absurd hended List.not_mem_nil
  | step before hstep ih =>
    obtain ⟨-, hclosed, hnew⟩ := hstep.keeps
    rcases List.mem_append.1 hended with hold | hmore
    · exact hclosed (ih hold)
    · exact hnew hmore
  | peer before hpeer ih => exact ih hended

/-- Only at the end of its queue does the loop that serves come to its end. -/
lemma Moved.ended_of_base (h : Moved ps w more w') (hbase : w'.thread.base = .ended) :
    w.thread.base = .ended ∨ .ended ∈ more := by
  cases h with
  | aside hcalls haside =>
    obtain ⟨-, hgoes⟩ := resume_topped hcalls _
    rw [hbase] at hgoes
    exact .inl hgoes.ended
  | @taken m q hnone hreceive =>
    have hgrown := take_grown ps { w with link := { w.link with toWorker := q } } m
    have hgoes := hgrown.base
    rw [hbase] at hgoes
    exact .inl hgoes.ended
  | ended => exact .inr List.mem_cons_self

lemma PeerRun.ended_of_base {name : String} {state : σ} (run : PeerRun ps name state w log)
    (hbase : w.thread.base = .ended) : .ended ∈ log := by
  induction run with
  | new => cases hbase
  | peer before hpeer ih => exact ih hbase
  | @step w log more w' before hstep ih =>
    rw [List.mem_append]
    cases hstep with
    | move hmove =>
      have hmoved : Moved ps w
          ((w.heard : List (Heard HH WH)) ++ (w.moveEvents ps).map .event) w' :=
        moved_of_move hmove
      exact (hmoved.ended_of_base hbase).imp_left ih
    | start hrest task =>
      obtain ⟨-, huse⟩ := base_topped (callIds_of_not_listening hrest).2 (task w.state)
      have hended : (w.runBase (task w.state)).thread.base = .ended := hbase
      rw [hended] at huse
      cases huse
    | serve => cases hbase
    | close =>
      refine .inl (ih ?_)
      rw [← hbase]
      unfold WorkerSide.close
      split
      · rfl
      · rfl
    | manage => exact .inl (ih hbase)
    | work => exact .inl (ih hbase)

/-- A call that returns that the channel is closed has seen the end of the queue. -/
lemma PeerRun.ended_of_completed {name : String} {state : σ} (run : PeerRun ps name state w log)
    (hbound : (issuedIn log).length ≤ 2 ^ 64)
    (hreturned : .event (.ofWorker id (.completed (.error .closed))) ∈ log) : .ended ∈ log := by
  obtain ⟨pre, post, heq⟩ := List.append_of_mem hreturned
  have hdue : Due pre id (.error .closed) := (run.sound hbound).accounts.returned pre _ post heq
  rw [heq]
  cases hdue with
  | answered hmem hcarries => cases hcarries
  | closed hnone hended => exact List.mem_append_left _ hended

end
end WorkerSide
end WorkerHost
