import WorkerHost.Proofs.Channel.Trace

/-!
# What the handlers of a worker answer

The worker thread keeps the computations of its handlers on a stack, each cut off where it waits.
The answer to a call of the host is the result of the computation that was started for that very
call: `WorkerSide.Tied` holds of the stack and the log at all times.

* `WorkerSide.runStep_leads`: running goes on with the computation at hand;
* `WorkerSide.Tied.move`: a move of the thread keeps results and calls together.
-/

namespace WorkerHost

/-- A computation goes on to another one, with some answers to its questions. -/
inductive Step.Leads {σ Q α : Type} {R : Q → Type} (x : Step σ Q R α) : Step σ Q R α → Prop where
  | refl : Leads x x
  | ask {q s resume} (h : Leads x (.ask q s resume)) (r : R q) (s' : σ) : Leads x (resume r s')

namespace WorkerSide
variable {σ HH WH β : Type} [HasHeap σ] {w : WorkerSide σ WH β}

/-- Running a computation ends with a result of it, in the state that it leaves, or where it
waits. -/
lemma runStep_leads {α : Type} {x : WorkerStep σ α} (w : WorkerSide σ WH β)
    (step : WorkerStep σ α) (h : x.Leads step) :
    (∃ a, (runStep w step).1 = .inl a ∧ x.Leads (.done a (runStep w step).2.state)) ∨
      ∃ b s, (runStep w step).1 = .inr b ∧ x.Leads (.ask b.call s b.resume) := by
  induction step generalizing w with
  | done a s => exact .inl ⟨a, rfl, h⟩
  | ask call s resume ih =>
    unfold runStep
    split
    · exact .inr ⟨_, s, rfl, h⟩
    · exact ih _ _ _ (h.ask _ _)

/-- A computation that was started for a call, or what it has gone on to. -/
def RunsFor (ps : WorkerPrograms σ WH) (log : List (Event HH WH)) (id : CallId)
    (step : WorkerStep σ (Except RemoteError Value)) : Prop :=
  ∃ k xs h s, .ofHost id (.ran k xs h) ∈ log ∧
    (ps.callable k xs (HasHeap.setHeap h s)).Leads step

/-- A result that a call of the host has: it was refused, or a computation started for it has
ended. -/
def ResultOf (ps : WorkerPrograms σ WH) (log : List (Event HH WH)) (id : CallId)
    (r : Except RemoteError Value) : Prop :=
  (∃ target args h found e, .ofHost id (.served target args h found) ∈ log ∧
    Inbound.of "worker" h found target args = .refused e ∧ r = .error e) ∨
  ∃ s, RunsFor ps log id (.done r s)

/-- Every handler on the stack goes on with the computation of the call that it is to answer, and
every answer is a result of its call. -/
structure Tied (ps : WorkerPrograms σ WH) (w : WorkerSide σ WH β) (log : List (Event HH WH)) :
    Prop where
  frames : ∀ f ∈ w.thread.frames, ∃ q s, RunsFor ps log f.answering (.ask q s f.resume)
  answers : ∀ id r h, .ofHost id (.answered r h) ∈ log → ResultOf ps log id r

variable {ps : WorkerPrograms σ WH} {log more : List (Event HH WH)} {id : CallId}

lemma RunsFor.append {step : WorkerStep σ (Except RemoteError Value)} (h : RunsFor ps log id step) :
    RunsFor ps (log ++ more) id step := by
  obtain ⟨k, xs, hp, s, hran, hleads⟩ := h
  exact ⟨k, xs, hp, s, List.mem_append_left _ hran, hleads⟩

lemma ResultOf.append {r : Except RemoteError Value} (h : ResultOf ps log id r) :
    ResultOf ps (log ++ more) id r := by
  rcases h with ⟨target, args, hp, found, e, hserved, hrefused, rfl⟩ | ⟨s, hruns⟩
  · exact .inl ⟨target, args, hp, found, e, List.mem_append_left _ hserved, hrefused, rfl⟩
  · exact .inr ⟨s, hruns.append⟩

/-- Events keep the ties if the answers among them are results and no handler is new. -/
lemma Tied.append {w' : WorkerSide σ WH β} (h : Tied ps w log)
    (hframes : ∀ f ∈ w'.thread.frames, f ∈ w.thread.frames)
    (hanswers : ∀ id r hp, .ofHost id (.answered r hp) ∈ more → ResultOf ps (log ++ more) id r) :
    Tied ps w' (log ++ more) := by
  constructor
  · intro f hf
    obtain ⟨q, s, hruns⟩ := h.frames f (hframes f hf)
    exact ⟨q, s, hruns.append⟩
  · intro id r hp hmem
    rcases List.mem_append.1 hmem with hold | hnew
    · exact (h.answers id r hp hold).append
    · exact hanswers id r hp hnew

/-- Events without an answer keep the ties. -/
lemma Tied.silent {w' : WorkerSide σ WH β} (h : Tied ps w log)
    (hframes : ∀ f ∈ w'.thread.frames, f ∈ w.thread.frames)
    (hsilent : ∀ a r hp, .ofHost a (.answered r hp) ∉ more) : Tied ps w' (log ++ more) :=
  h.append hframes fun a r hp hmem => absurd hmem (hsilent a r hp)

/-! ## The stack -/

lemma startCall_frames (w : WorkerSide σ WH β) (c : HostCall) :
    (startCall w c).2.thread.frames = w.thread.frames := by
  unfold startCall
  dsimp only
  split
  · rfl
  · split
    · rfl
    · split
      · rfl
      · rfl

/-- Running a computation leaves the stack alone. -/
lemma runStep_frames {α : Type} (w : WorkerSide σ WH β) (step : WorkerStep σ α) :
    (runStep w step).2.thread.frames = w.thread.frames := by
  induction step generalizing w with
  | done a s => rfl
  | ask call s resume ih =>
    have hstart := startCall_frames { w with state := s } call
    unfold runStep
    split
    case h_1 heq =>
      rw [heq] at hstart
      exact hstart
    case h_2 heq =>
      rw [heq] at hstart
      exact (ih _ _ _).trans hstart

omit [HasHeap σ] in
lemma post_frames (w : WorkerSide σ WH β) (m : Message) :
    (w.post m).thread.frames = w.thread.frames := by
  rcases post_cases w m with heq | heq <;> rw [heq]

/-! ## Operations -/

/-- A handler's computation answers with its result, or it waits on the stack. -/
lemma Tied.handler {step : WorkerStep σ (Except RemoteError Value)} (h : Tied ps w log)
    (hruns : RunsFor ps log id step) :
    Tied ps (runHandler id w step) (log ++ handlerEvents id w step) := by
  obtain ⟨k, xs, hp, s, hran, hleads⟩ := hruns
  have hframes := runStep_frames w step
  unfold runHandler handlerEvents
  -- the result, or the point where it waits, belongs to the computation that the call started
  rcases runStep_leads w step hleads with ⟨r, hrun, hdone⟩ | ⟨b, s', hrun, hask⟩
  · generalize runStep w step = ran at hrun hdone hframes
    obtain ⟨_, w'⟩ := ran
    cases hrun
    refine h.append (fun f hf => ?_) fun a r' hp' hmem => ?_
    · rw [post_frames] at hf
      exact hframes ▸ hf
    · obtain ⟨rfl, rfl, -⟩ : a = id ∧ r' = r ∧ hp' = HasHeap.heap w'.state := by
        simpa using hmem
      exact .inr ⟨w'.state, k, xs, hp, s, List.mem_append_left _ hran, hdone⟩
  · generalize runStep w step = ran at hrun hframes
    obtain ⟨_, w'⟩ := ran
    cases hrun
    have hw' : Tied ps w' (log ++ blockedEvents b w') :=
      h.silent (fun f hf => hframes ▸ hf) (by simp [blockedEvents])
    refine ⟨fun f hf => ?_, hw'.answers⟩
    rcases List.mem_cons.1 hf with rfl | hf
    · exact ⟨b.call, s', k, xs, hp, s, List.mem_append_left _ hran, hask⟩
    · exact hw'.frames f hf

lemma Tied.base {step : WorkerStep σ β} (h : Tied ps w log) :
    Tied ps (runBase w step) (log ++ baseEvents w step) := by
  have hframes := runStep_frames w step
  unfold runBase baseEvents
  generalize runStep w step = ran at hframes
  obtain ⟨b | b, w'⟩ := ran
  · exact h.silent (fun f hf => hframes ▸ hf) (by simp)
  · exact h.silent (fun f hf => hframes ▸ hf) (by simp [blockedEvents])

/-- The computation of the handler that a call runs is started for it. -/
lemma Tied.serve {target : Target} {args : Wire} (h : Tied ps w log) :
    Tied ps (serveCall ps w id target args) (log ++ serveEvents ps w id target args) := by
  rcases serve_cases HH ps w id target args with
    ⟨e, hin, heq, hevents⟩ | ⟨callable, args', h', hin, heq, hevents⟩
  · rw [heq, hevents]
    refine h.append (fun f hf => ?_) fun a r hp hmem => ?_
    · rw [post_frames] at hf
      exact hf
    · obtain ⟨rfl, rfl, -⟩ : a = id ∧ r = .error e ∧ hp = HasHeap.heap w.state := by
        simpa using hmem
      exact .inl ⟨target, args, _, _, e, by simp, hin, rfl⟩
  · have hserved : Tied ps w (log ++
        [.ofHost id (.served target args (HasHeap.heap w.state) (w.endpoint.handlerFor target)),
          .ofHost id (.ran callable args' h')]) :=
      h.silent (fun f hf => hf) (by simp)
    rw [heq, hevents, ← List.append_assoc]
    exact hserved.handler ⟨callable, args', h', w.state, by simp, .refl⟩

omit [HasHeap σ] in
lemma popTop_frames (w : WorkerSide σ WH β) :
    ∀ f ∈ w.popTop.thread.frames, f ∈ w.thread.frames := by
  unfold popTop
  cases hframes : w.thread.frames with
  | cons f rest => exact fun g hg => List.mem_cons_of_mem f hg
  | nil =>
    cases hbase : w.thread.base <;> simp [hframes]

/-- The handler on top of the stack goes on with its own computation. -/
lemma Tied.resume (h : Tied ps w log) (o : CallOutcome) :
    Tied ps (resumeTop w o) (log ++ resumeEvents w o) := by
  have hpop (a : CallId) : Tied ps w.popTop (log ++ [.ofWorker a (.completed o)]) :=
    h.silent (popTop_frames w) (by simp)
  rcases resume_cases HH w o with
    ⟨f, rest, hframes, heq, hevents⟩ | ⟨a, resume, -, -, heq, hevents⟩ | ⟨-, heq, hevents⟩
  · -- the handler on top goes on with the very computation it was cut off from
    obtain ⟨q, s, k, xs, hp, s', hran, hleads⟩ :=
      h.frames f (hframes ▸ List.mem_cons_self)
    rw [heq, hevents, List.append_cons]
    exact (hpop _).handler
      ⟨k, xs, hp, s', List.mem_append_left _ hran, hleads.ask o w.state⟩
  · rw [heq, hevents, List.append_cons]
    exact (hpop _).base
  · rw [heq, hevents, List.append_nil]
    exact h

lemma Tied.reply (h : Tied ps w log) (m : Message) :
    Tied ps (takeReply w m) (log ++ replyEvents w m) := by
  have hreceived (o : CallOutcome) (h' : Heap) :
      Tied ps { w with state := HasHeap.setHeap h' w.state }
        (log ++ [.ofWorker m.id (.received (HasHeap.heap w.state) o)]) :=
    h.silent (fun f hf => hf) (by simp)
  rcases reply_cases HH w m with
    ⟨o, h', -, -, heq, hevents⟩ | ⟨o, h', -, -, heq, hevents⟩ | ⟨-, heq, hevents⟩
  · rw [heq, hevents, List.append_cons]
    exact (hreceived o h').resume o
  · rw [heq, hevents]
    exact ⟨(hreceived o h').frames, (hreceived o h').answers⟩
  · rw [heq, hevents, List.append_nil]
    exact h

lemma Tied.take (h : Tied ps w log) (m : Message) :
    Tied ps (take ps w m) (log ++ takeEvents ps w m) := by
  cases m with
  | call => exact h.serve
  | reply id value => exact h.reply (.reply id value)
  | fail id error => exact h.reply (.fail id error)

lemma Tied.disconnect (h : Tied ps w log) :
    Tied ps (disconnect w) (log ++ disconnectEvents w) := by
  have hclosed : Tied ps w.hungUp log := ⟨h.frames, h.answers⟩
  rcases disconnect_cases HH w with ⟨id, rest, -, heq, hevents⟩ | ⟨-, heq, hevents⟩
  · rw [heq, hevents]
    exact hclosed.resume _
  · rw [heq, hevents, List.append_nil]
    exact ⟨hclosed.frames, hclosed.answers⟩

/-- A move of the thread keeps results and calls together. -/
lemma Tied.move {w' : WorkerSide σ WH β} (h : Tied ps w log) (hmove : move? ps w = some w') :
    Tied ps w' (log ++ moveEvents ps w) := by
  obtain ⟨-, ⟨o, -, rfl, hevents⟩ | ⟨-, ⟨m, q, -, rfl, hevents⟩ | ⟨-, rfl, hevents⟩⟩⟩ :=
    move_cases HH hmove
  · rw [hevents]
    exact h.resume o
  · rw [hevents]
    have htaken : Tied ps { w with link := { w.link with toWorker := q } } log :=
      ⟨h.frames, h.answers⟩
    exact htaken.take m
  · rw [hevents]
    exact h.disconnect

end WorkerSide
end WorkerHost
