import WorkerHost.Proofs.Channel.Peer
import WorkerHost.Proofs.Waiting

/-!
# Calls inside of calls

While a handler waits for the host, the thread serves further calls, and it goes on with the handler
when they are all over. `openCalls` are the calls that are being served, by what has happened to
them. If every handler puts back what it has changed, then each of them finds, whenever it goes on,
what it has left itself: `WorkerSide.Orderly`, which no move breaks, `WorkerSide.Orderly.move`.
-/

namespace WorkerHost

section
variable {HH WH : Type}

/-- Calls that are being served and what they have found, the latest first. -/
abbrev OpenCalls (WH : Type) := List (CallId × Option (WH ⊕ Function))

/-- What an event makes of the calls that are being served. -/
def Event.opens (calls : OpenCalls WH) : Event HH WH → OpenCalls WH
  | ofHost id (.served _ _ _ found) => (id, found) :: calls
  | ofHost id (.answered ..) => calls.eraseP (·.1 == id)
  | _ => calls

/-- The calls that are being served after some events. -/
def openCalls (log : List (Event HH WH)) : OpenCalls WH :=
  log.foldl Event.opens []

lemma openCalls_append (log more : List (Event HH WH)) :
    openCalls (log ++ more) = more.foldl Event.opens (openCalls log) :=
  List.foldl_append

end

/-- Whatever a worker runs puts back what is seen of the state, if that is good. While it waits,
`inside` says what is seen by what was seen at first, and that is good as well. -/
structure WorkerPrograms.Restores {σ WH V : Type} [HasHeap σ] (ps : WorkerPrograms σ WH)
    (view : σ → V) (good : V → Prop) (inside : WH ⊕ Function → V → V → Prop) : Prop where
  callable (k : WH ⊕ Function) (args : List Value) (s : σ) (hs : good (view s)) :
    (ps.callable k args s).Maintains view (inside k (view s)) fun u _ => u = view s
  good (k : WH ⊕ Function) (v u : V) (hv : good v) (hu : inside k v u) : good u
  heap (s : σ) (h : Heap) : view (HasHeap.setHeap h s) = view s

namespace WorkerSide
variable {σ HH WH β V : Type} {view : σ → V} {inside : WH ⊕ Function → V → V → Prop} {v v₀ : V}
  {calls : OpenCalls WH} {w w' : WorkerSide σ WH β}

/-- The frames of calls that are being served. Each leaves what is seen as it was when it began,
if it goes on from what it has left. -/
inductive Stacked (view : σ → V) (inside : WH ⊕ Function → V → V → Prop) (v₀ : V) :
    V → OpenCalls WH → List (Frame σ) → Prop
  | nil : Stacked view inside v₀ v₀ [] []
  | cons {v u : V} {k : WH ⊕ Function} {calls : OpenCalls WH} {f : Frame σ}
      {frames : List (Frame σ)} (below : Stacked view inside v₀ v calls frames) (hu : inside k v u)
      (hf : ∀ r s, view s = u →
        (f.resume r s).Maintains view (inside k v) fun u _ => u = v) :
      Stacked view inside v₀ u ((f.answering, some k) :: calls) (f :: frames)

/-- The stack of a thread fits the calls that are being served. -/
structure Orderly (view : σ → V) (inside : WH ⊕ Function → V → V → Prop) (v₀ : V)
    (w : WorkerSide σ WH β) (calls : OpenCalls WH) : Prop where
  frames : Stacked view inside v₀ (view w.state) calls w.thread.frames
  base : ∀ id resume, w.thread.base = .waiting id resume → ∀ r s, view s = v₀ →
    (resume r s).Maintains view (· = v₀) fun u _ => u = v₀

lemma Orderly.congr (h : Orderly view inside v₀ w calls)
    (hframes : w'.thread.frames = w.thread.frames) (hbase : w'.thread.base = w.thread.base)
    (hview : view w'.state = view w.state) : Orderly view inside v₀ w' calls :=
  ⟨by rw [hframes, hview]; exact h.frames, by rw [hbase]; exact h.base⟩

/-- Wherever the stack is, what is seen is good. -/
lemma Stacked.good {ps : WorkerPrograms σ WH} [HasHeap σ] {good : V → Prop}
    {frames : List (Frame σ)} (hps : ps.Restores view good inside) (h₀ : good v₀)
    (h : Stacked view inside v₀ v calls frames) : good v := by
  induction h with
  | nil => exact h₀
  | cons below hu hf ih => exact hps.good _ _ _ ih hu

/-- With no frame no call is being served. -/
lemma Stacked.of_nil (h : Stacked view inside v₀ v calls ([] : List (Frame σ))) :
    v = v₀ ∧ calls = [] := by
  cases h
  exact ⟨rfl, rfl⟩

variable [HasHeap σ]

/-- What becomes of a computation that maintains something: it ends, or it waits and goes on to. -/
lemma runStep_maintains {α : Type} {during : V → Prop} {post : V → α → Prop} {step : WorkerStep σ α}
    (h : step.Maintains view during post) (w : WorkerSide σ WH β) :
    (∃ a w', runStep w step = (.inl a, w') ∧ w'.thread.frames = w.thread.frames ∧
      w'.thread.base = w.thread.base ∧ post (view w'.state) a) ∨
    ∃ b w', runStep w step = (.inr b, w') ∧ w'.thread.frames = w.thread.frames ∧
      w'.thread.base = w.thread.base ∧ during (view w'.state) ∧
      ∀ r s, view s = view w'.state → (b.resume r s).Maintains view during post := by
  induction step generalizing w with
  | done a s => exact .inl ⟨a, { w with state := s }, rfl, rfl, rfl, h⟩
  | ask call s resume ih =>
    unfold runStep
    rcases startCall_cases { w with state := s } call with
      ⟨err, n, hstart, -⟩ | ⟨args, -, -, -, hstart⟩
    · rw [hstart]
      exact ih (.error err) s (h.2 _ _ rfl) _
    · rw [hstart]
      exact .inr ⟨_, _, rfl, rfl, rfl, h.1, h.2⟩

/-- A handler of an open worker side that calls the host is on the stack from then on. -/
lemma runHandler_ask (hw : w.Open) {answering : CallId} {call : HostCall} {s : σ} {args : Wire}
    {resume : CallOutcome → σ → WorkerStep σ (Except RemoteError Value)}
    (hpack : packArgs (HasHeap.heap s) call.args = .ok args) :
    runHandler answering w (.ask call s resume) =
      let w' := { w with state := s }.issue call.target args
      { w' with thread := { w'.thread with
          frames := ⟨⟨w.endpoint.nextId⟩, answering, resume⟩ :: w.thread.frames } } := by
  have hs : Open { w with state := s } := ⟨hw.endpoint, hw.link⟩
  simp only [runHandler, runStep, startCall_eq_issue hs.endpoint hs.joined hpack]
  rfl

omit [HasHeap σ] in
/-- A post changes the link only. -/
lemma Orderly.post (h : Orderly view inside v₀ w calls) (m : Message) :
    Orderly view inside v₀ (w.post m) calls := by
  rcases post_cases w m with hm | hm <;> rw [hm]
  · exact h
  · exact h.congr rfl rfl rfl

/-- A handler begins or goes on. -/
lemma Orderly.handler {k : WH ⊕ Function} {step : WorkerStep σ (Except RemoteError Value)}
    (hbelow : Stacked view inside v₀ v calls w.thread.frames)
    (hbase : ∀ id resume, w.thread.base = .waiting id resume → ∀ r s, view s = v₀ →
      (resume r s).Maintains view (· = v₀) fun u _ => u = v₀)
    (hstep : step.Maintains view (inside k v) fun u _ => u = v) (answering : CallId) :
    Orderly view inside v₀ (runHandler answering w step)
      ((handlerEvents answering w step : List (Event HH WH)).foldl Event.opens
        ((answering, some k) :: calls)) := by
  unfold runHandler handlerEvents
  rcases runStep_maintains hstep w with
    ⟨result, w', hrun, hframes, hbase', hview⟩ | ⟨b, w', hrun, hframes, hbase', hview, hresume⟩
  · rw [hrun]
    have hover : Orderly view inside v₀ w' calls :=
      ⟨by rw [hframes, hview]; exact hbelow, by rw [hbase']; exact hbase⟩
    simpa [Event.opens] using hover.post _
  · rw [hrun]
    refine ⟨?_, by rw [hbase']; exact hbase⟩
    rw [← hframes] at hbelow
    exact .cons (f := ⟨b.id, answering, b.resume⟩) hbelow hview hresume

/-- The thread's own computation serves no call. -/
lemma opens_baseEvents (w : WorkerSide σ WH β) (step : WorkerStep σ β) (calls : OpenCalls WH) :
    (baseEvents w step : List (Event HH WH)).foldl Event.opens calls = calls := by
  unfold baseEvents
  rcases runStep w step with ⟨b | b, w'⟩ <;> rfl

/-- The thread's own computation begins or goes on. -/
lemma Orderly.runBase {step : WorkerStep σ β} (hframes : w.thread.frames = [])
    (hstep : step.Maintains view (· = v₀) fun u _ => u = v₀) :
    Orderly view inside v₀ (w.runBase step) [] := by
  unfold WorkerSide.runBase
  rcases runStep_maintains hstep w with
    ⟨b, w', hrun, hframes', -, hview⟩ | ⟨b, w', hrun, hframes', -, hview, hresume⟩
  · rw [hrun]
    refine ⟨?_, nofun⟩
    show Stacked view inside v₀ (view w'.state) [] w'.thread.frames
    rw [hframes', hframes, hview]
    exact .nil
  · rw [hrun]
    refine ⟨?_, ?_⟩
    · show Stacked view inside v₀ (view w'.state) [] w'.thread.frames
      rw [hframes', hframes, hview]
      exact .nil
    · rintro id resume hwaiting r s hs
      obtain ⟨-, rfl⟩ := Base.waiting.inj hwaiting
      exact hresume r s (hs.trans hview.symm)

/-- The computation on top goes on, from what it has left. -/
lemma Orderly.resumeTop (h : Orderly view inside v₀ w calls) (outcome : CallOutcome) :
    Orderly view inside v₀ (w.resumeTop outcome)
      ((resumeEvents w outcome : List (Event HH WH)).foldl Event.opens calls) := by
  obtain ⟨hstacked, hbase⟩ := h
  rcases resume_cases HH w outcome with ⟨f, rest, hframes, heq, hevents⟩ |
    ⟨id, resume, hframes, hwaiting, heq, hevents⟩ | ⟨-, heq, hevents⟩
  · rw [heq, hevents]
    rw [hframes] at hstacked
    cases hstacked with
    | cons below hu hf =>
      have hpop : w.popTop = { w with thread := { w.thread with
          frames := rest, endpoint := w.endpoint.settle f.waiting } } := by
        simp only [popTop, hframes]
      simp only [List.foldl_cons, Event.opens]
      refine Orderly.handler ?_ ?_ (hf outcome w.state rfl) f.answering
      · rw [hpop]
        exact below
      · rw [hpop]
        exact hbase
  · rw [hframes] at hstacked
    obtain ⟨hview, rfl⟩ := hstacked.of_nil
    have hpop : w.popTop.thread.frames = [] := by
      simp only [popTop, hframes, hwaiting]
    rw [heq, hevents]
    simp only [List.foldl_cons, Event.opens, opens_baseEvents]
    exact .runBase hpop (hbase id resume hwaiting outcome w.state hview)
  · rw [heq, hevents]
    exact ⟨hstacked, hbase⟩

variable {ps : WorkerPrograms σ WH} {good : V → Prop} (hps : ps.Restores view good inside)
include hps

/-- A call begins. -/
lemma Orderly.serveCall (h₀ : good v₀) (h : Orderly view inside v₀ w calls) (id : CallId)
    (target : Target) (args : Wire) : Orderly view inside v₀ (w.serveCall ps id target args)
      ((serveEvents ps w id target args : List (Event HH WH)).foldl Event.opens calls) := by
  rcases serve_cases HH ps w id target args with
    ⟨e, -, heq, hevents⟩ | ⟨k, args', h', hin, heq, hevents⟩
  · rw [heq, hevents]
    simpa [Event.opens] using h.post _
  · obtain ⟨hfound, -⟩ := Inbound.of_eq_run hin
    rw [heq, hevents]
    simp only [List.foldl_append, List.foldl_cons, List.foldl_nil, Event.opens, hfound]
    refine Orderly.handler h.frames h.base ?_ id
    have hgood := h.frames.good hps h₀
    rw [← hps.heap w.state h'] at hgood
    have hstep := hps.callable k args' _ hgood
    rwa [hps.heap] at hstep

lemma Orderly.takeReply (h : Orderly view inside v₀ w calls) (m : Message) :
    Orderly view inside v₀ (w.takeReply m)
      ((replyEvents w m : List (Event HH WH)).foldl Event.opens calls) := by
  have hheap (h' : Heap) :
      Orderly view inside v₀ { w with state := HasHeap.setHeap h' w.state } calls :=
    h.congr rfl rfl (hps.heap _ _)
  rcases reply_cases HH w m with
    ⟨o, h', -, -, heq, hevents⟩ | ⟨o, h', -, -, heq, hevents⟩ | ⟨-, heq, hevents⟩
  · rw [heq, hevents]
    exact (hheap h').resumeTop o
  · rw [heq, hevents]
    exact h.congr rfl rfl (hps.heap _ _)
  · rw [heq, hevents]
    exact h

omit hps in
lemma Orderly.disconnect (h : Orderly view inside v₀ w calls) :
    Orderly view inside v₀ w.disconnect
      ((disconnectEvents w : List (Event HH WH)).foldl Event.opens calls) := by
  have hclosed : Orderly view inside v₀ w.hungUp calls := h.congr rfl rfl rfl
  rcases disconnect_cases HH w with ⟨id, rest, -, heq, hevents⟩ | ⟨-, heq, hevents⟩
  · rw [heq, hevents]
    exact hclosed.resumeTop (.error .closed)
  · rw [heq, hevents]
    exact ⟨hclosed.frames, nofun⟩

/-- A message is a call that begins, or a reply. -/
lemma Orderly.take (h₀ : good v₀) (h : Orderly view inside v₀ w calls) (m : Message) :
    Orderly view inside v₀ (w.take ps m)
      ((takeEvents ps w m : List (Event HH WH)).foldl Event.opens calls) := by
  cases m with
  | call id target args => exact h.serveCall hps h₀ id target args
  | reply id value => exact h.takeReply hps (.reply id value)
  | fail id e => exact h.takeReply hps (.fail id e)

/-- No move breaks the order of the calls that are being served. -/
theorem Orderly.move (h₀ : good v₀) (h : Orderly view inside v₀ w calls)
    (hmove : w.move? ps = some w') :
    Orderly view inside v₀ w' ((moveEvents ps w : List (Event HH WH)).foldl Event.opens calls) := by
  obtain ⟨-, ⟨o, -, rfl, hevents⟩ | ⟨-, ⟨m, q, -, rfl, hevents⟩ | ⟨-, rfl, hevents⟩⟩⟩ :=
    move_cases HH hmove
  · rw [hevents]
    exact h.resumeTop o
  · rw [hevents]
    have hlink : Orderly view inside v₀ { w with link := { w.link with toWorker := q } } calls :=
      h.congr rfl rfl rfl
    exact hlink.take hps h₀ m
  · rw [hevents]
    exact h.disconnect

end WorkerSide
end WorkerHost
