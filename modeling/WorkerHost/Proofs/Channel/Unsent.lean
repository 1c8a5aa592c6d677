import WorkerHost.Proofs.Channel.Closing
import WorkerHost.Proofs.Channel.Stack

/-!
# A call that no link takes

A call that can not be sent is undone before it returns; all it has used up is a number. Where a
link does not take a message it takes none later either, so no call is sent any more and no number
shows. Two ends that differ in their next number go on alike from there.

* `WorkerSide.startCall_eq_steps`: a call of the worker, one change of its tables after another;
* `WorkerSide.Later.twin`, `HostEndpoint.Later.twin`: whatever happens to an end without a link can
  happen to its twin, which differs in the next number alone, and the same is seen of it.
-/

namespace WorkerHost

/-- A queue that does not take a message has lost one of its ends. -/
lemma Queue.not_joined_of_send? {q : Queue} {m : Message} (h : q.send? m = none) : ¬ q.Joined := by
  intro hjoined
  rw [Queue.send?_eq hjoined] at h
  cases h

/-! ## The tables of a worker during a call -/

namespace WorkerEndpoint
variable {H : Type}

/-- A call gets its number, and is outstanding under it. -/
def enter (e : WorkerEndpoint H) : WorkerEndpoint H :=
  { e with nextId := e.nextId + 1, outstanding := ⟨e.nextId⟩ :: e.outstanding }

/-- A call is outstanding no more. -/
def remove (e : WorkerEndpoint H) (id : CallId) : WorkerEndpoint H :=
  { e with outstanding := e.outstanding.filter (· != id) }

/-- One more call waits. -/
def deepen (e : WorkerEndpoint H) : WorkerEndpoint H :=
  { e with depth := e.depth + 1 }

end WorkerEndpoint

namespace WorkerSide
variable {σ HH WH β : Type} {w w' : WorkerSide σ WH β}

/-- The worker side with another next number. -/
def renumber (w : WorkerSide σ WH β) (n : UInt64) : WorkerSide σ WH β :=
  w.setEndpoint { w.endpoint with nextId := n }

/-- The worker side after a number has been skipped. -/
def skip (w : WorkerSide σ WH β) : WorkerSide σ WH β :=
  w.renumber (w.endpoint.nextId + 1)

section
variable [HasHeap σ]

omit [HasHeap σ] in
/-- A number that is skipped is all that is left of a call that gives up its place again. -/
lemma remove_enter (hfresh : ⟨w.endpoint.nextId⟩ ∉ w.endpoint.outstanding) :
    w.setEndpoint (w.endpoint.enter.remove ⟨w.endpoint.nextId⟩) = w.skip := by
  simp only [WorkerEndpoint.enter, WorkerEndpoint.remove, skip, renumber]
  rw [List.filter_cons_of_neg (by simp), filter_ne_of_not_mem hfresh]

/-- A call is outstanding before its message is sent, and not any more if no link takes that. -/
lemma startCall_eq_steps {c : HostCall} {args : Wire} (hopen : w.endpoint.closed = false)
    (hpack : packArgs (HasHeap.heap w.state) c.args = .ok args)
    (hfresh : ⟨w.endpoint.nextId⟩ ∉ w.endpoint.outstanding) :
    w.startCall c =
      match w.link.toHost.send? (.call ⟨w.endpoint.nextId⟩ c.target args) with
      | some q => (.ok ⟨w.endpoint.nextId⟩,
          { w.setEndpoint w.endpoint.enter.deepen with link := { w.link with toHost := q } })
      | none => (.error .closed,
          w.setEndpoint (w.endpoint.enter.remove ⟨w.endpoint.nextId⟩)) := by
  have hclosed : ¬ w.endpoint.closed = true := by simp [hopen]
  rw [remove_enter hfresh]
  simp only [startCall, hpack]
  rw [if_neg hclosed]
  cases w.link.toHost.send? (.call ⟨w.endpoint.nextId⟩ c.target args) <;> rfl

/-- What a call comes to that no link takes: it fails, and it may use up a number. -/
lemma startCall_of_not_joined (hgone : ¬ w.link.toHost.Joined) (c : HostCall) :
    w.startCall c =
      if w.endpoint.closed then (.error .closed, w)
      else
        match packArgs (HasHeap.heap w.state) c.args with
        | .error err => (.error (.codec err), w)
        | .ok _ => (.error .closed, w.skip) := by
  unfold startCall
  cases packArgs (HasHeap.heap w.state) c.args with
  | error err => rfl
  | ok args =>
    simp only [Queue.send?_eq_none hgone]
    rfl

/-! ## Twins -/

omit [HasHeap σ] in
/-- Two worker sides without a link that differ in their next number alone. -/
structure Twin (w w' : WorkerSide σ WH β) : Prop where
  gone : ¬ w.link.toHost.Joined
  same : ∃ n, w' = w.renumber n

omit [HasHeap σ] in
lemma Twin.symm (h : Twin w w') : Twin w' w := by
  obtain ⟨hgone, n, rfl⟩ := h
  exact ⟨hgone, w.endpoint.nextId, rfl⟩

/-- A computation without a link gets to its end, whatever number would be the next, and with one
result. -/
lemma runStep_of_not_joined {α : Type} (hgone : ¬ w.link.toHost.Joined) (n : UInt64)
    (step : WorkerStep σ α) : ∃ a s k m, w.runStep step = (.inl a, w.turn k s) ∧
      (w.renumber n).runStep step = (.inl a, w.turn m s) := by
  induction step generalizing w n with
  | done a s => exact ⟨a, s, w.endpoint.nextId, n, rfl, rfl⟩
  | ask c s resume ih =>
    let u : WorkerSide σ WH β := { w with state := s }
    -- both calls fail with one error, and the computation goes on with that
    obtain ⟨err, k, m, hcall, hcall'⟩ : ∃ err k m, u.startCall c = (.error err, u.renumber k) ∧
        (u.renumber n).startCall c = (.error err, u.renumber m) := by
      have hfirst := startCall_of_not_joined (w := u) hgone c
      have hsecond := startCall_of_not_joined (w := u.renumber n) hgone c
      have hclosed : (u.renumber n).endpoint.closed = u.endpoint.closed := rfl
      have hstate : (u.renumber n).state = u.state := rfl
      rw [hclosed, hstate] at hsecond
      by_cases h : u.endpoint.closed = true
      · rw [if_pos h] at hfirst hsecond
        exact ⟨_, _, _, hfirst, hsecond⟩
      rw [if_neg h] at hfirst hsecond
      cases hpack : packArgs (HasHeap.heap u.state) c.args with
      | error err =>
        rw [hpack] at hfirst hsecond
        exact ⟨_, _, _, hfirst, hsecond⟩
      | ok args =>
        rw [hpack] at hfirst hsecond
        exact ⟨_, _, _, hfirst, hsecond⟩
    obtain ⟨a, s', k', m', hrun, hrun'⟩ := ih (.error err) s (w := u.renumber k) hgone m
    refine ⟨a, s', k', m', ?_, ?_⟩
    · simp only [runStep]
      rw [hcall]
      exact hrun
    · simp only [runStep]
      rw [show startCall { w.renumber n with state := s } c = _ from hcall']
      exact hrun'

variable (HH) in
lemma Twin.handler (h : Twin w w') (a : CallId) (step : WorkerStep σ (Except RemoteError Value)) :
    Twin (w.runHandler a step) (w'.runHandler a step) ∧
      (w'.handlerEvents a step : List (Event HH WH)) = w.handlerEvents a step := by
  obtain ⟨hgone, n, rfl⟩ := h
  obtain ⟨r, s, k, m, hrun, hrun'⟩ := runStep_of_not_joined hgone n step
  have hlost (k : UInt64) (msg : Message) : (w.turn k s).post msg = w.turn k s := by
    exact post_of_not_joined (show ¬ (w.turn k s).link.toHost.Joined from hgone) msg
  simp only [runHandler, handlerEvents, hrun, hrun', hlost]
  exact ⟨⟨hgone, m, rfl⟩, rfl⟩

variable (HH) in
lemma Twin.base (h : Twin w w') (step : WorkerStep σ β) :
    Twin (w.runBase step) (w'.runBase step) ∧
      (w'.baseEvents step : List (Event HH WH)) = w.baseEvents step := by
  obtain ⟨hgone, n, rfl⟩ := h
  obtain ⟨r, s, k, m, hrun, hrun'⟩ := runStep_of_not_joined hgone n step
  simp only [runBase, baseEvents, hrun, hrun']
  exact ⟨⟨hgone, m, rfl⟩, trivial⟩

omit [HasHeap σ] in
lemma Twin.post (h : Twin w w') (m : Message) : Twin (w.post m) (w'.post m) := by
  obtain ⟨hgone, n, rfl⟩ := h
  have hgone' : ¬ (w.renumber n).link.toHost.Joined := hgone
  rw [post_of_not_joined hgone, post_of_not_joined hgone']
  exact ⟨hgone, n, rfl⟩

variable (HH) in
lemma Twin.serve (h : Twin w w') (ps : WorkerPrograms σ WH) (a : CallId) (target : Target)
    (args : Wire) :
    Twin (w.serveCall ps a target args) (w'.serveCall ps a target args) ∧
      (w'.serveEvents ps a target args : List (Event HH WH)) = w.serveEvents ps a target args := by
  obtain ⟨n, rfl⟩ := h.same
  have hfound : (w.renumber n).endpoint.handlerFor target = w.endpoint.handlerFor target := by
    cases target <;> rfl
  have hstate : (w.renumber n).state = w.state := rfl
  unfold serveCall serveEvents
  dsimp only
  rw [hfound, hstate]
  cases Inbound.of "worker" (HasHeap.heap w.state) (w.endpoint.handlerFor target) target args with
  | refused e => exact ⟨h.post _, rfl⟩
  | run callable xs hp =>
    obtain ⟨htwin, hevents⟩ :=
      h.handler HH a (ps.callable callable xs (HasHeap.setHeap hp w.state))
    exact ⟨htwin, congrArg (_ ++ ·) hevents⟩

omit [HasHeap σ] in
lemma Twin.pop (h : Twin w w') : Twin w.popTop w'.popTop := by
  obtain ⟨hgone, n, rfl⟩ := h
  have hframes : (w.renumber n).thread.frames = w.thread.frames := rfl
  have hbase : (w.renumber n).thread.base = w.thread.base := rfl
  unfold popTop
  rw [hframes, hbase]
  cases w.thread.frames with
  | cons f rest => exact ⟨hgone, n, rfl⟩
  | nil => cases w.thread.base <;> exact ⟨hgone, n, rfl⟩

variable (HH) in
lemma Twin.resume (h : Twin w w') (o : CallOutcome) :
    Twin (w.resumeTop o) (w'.resumeTop o) ∧
      (w'.resumeEvents o : List (Event HH WH)) = w.resumeEvents o := by
  have hpop := h.pop
  obtain ⟨n, rfl⟩ := h.same
  have hframes : (w.renumber n).thread.frames = w.thread.frames := rfl
  have hbase : (w.renumber n).thread.base = w.thread.base := rfl
  have hstate : (w.renumber n).state = w.state := rfl
  unfold resumeTop resumeEvents
  rw [hframes, hbase, hstate]
  cases w.thread.frames with
  | cons f rest =>
    obtain ⟨htwin, hevents⟩ := hpop.handler HH f.answering (f.resume o w.state)
    exact ⟨htwin, congrArg (_ :: ·) hevents⟩
  | nil =>
    cases w.thread.base with
    | waiting id resume =>
      obtain ⟨htwin, hevents⟩ := hpop.base HH (resume o w.state)
      exact ⟨htwin, congrArg (_ :: ·) hevents⟩
    | _ => exact ⟨h, rfl⟩

variable (HH) in
lemma Twin.reply (h : Twin w w') (m : Message) :
    Twin (w.takeReply m) (w'.takeReply m) ∧
      (w'.replyEvents m : List (Event HH WH)) = w.replyEvents m := by
  obtain ⟨n, rfl⟩ := h.same
  have hgone := h.gone
  have hstate : (w.renumber n).state = w.state := rfl
  have htop : (w.renumber n).top? = w.top? := rfl
  have houtstanding : (w.renumber n).endpoint.outstanding = w.endpoint.outstanding := rfl
  unfold takeReply replyEvents
  rw [hstate, htop, houtstanding]
  cases m.outcome? (HasHeap.heap w.state) with
  | none => exact ⟨h, rfl⟩
  | some read =>
    obtain ⟨o, hp⟩ := read
    dsimp only
    split
    · have hread : Twin { w with state := HasHeap.setHeap hp w.state }
          { w.renumber n with state := HasHeap.setHeap hp w.state } := ⟨hgone, n, rfl⟩
      obtain ⟨htwin, hevents⟩ := hread.resume HH o
      exact ⟨htwin, congrArg (_ :: ·) hevents⟩
    · split
      · exact ⟨⟨hgone, n, rfl⟩, rfl⟩
      · exact ⟨h, rfl⟩

variable (HH) in
lemma Twin.take (h : Twin w w') (ps : WorkerPrograms σ WH) (m : Message) :
    Twin (w.take ps m) (w'.take ps m) ∧
      (w'.takeEvents ps m : List (Event HH WH)) = w.takeEvents ps m := by
  cases m with
  | call a target args => exact h.serve HH ps a target args
  | reply a v => exact h.reply HH (.reply a v)
  | fail a e => exact h.reply HH (.fail a e)

variable (HH) in
lemma Twin.disconnect (h : Twin w w') :
    Twin w.disconnect w'.disconnect ∧
      (w'.disconnectEvents : List (Event HH WH)) = w.disconnectEvents := by
  obtain ⟨hgone, n, rfl⟩ := h
  have hclosed : Twin (w.setEndpoint { w.endpoint with closed := true })
      ((w.renumber n).setEndpoint { (w.renumber n).endpoint with closed := true }) :=
    ⟨hgone, n, rfl⟩
  have htop : ((w.renumber n).setEndpoint
      { (w.renumber n).endpoint with closed := true }).top? =
      (w.setEndpoint { w.endpoint with closed := true }).top? := rfl
  unfold WorkerSide.disconnect disconnectEvents
  dsimp only
  rw [htop]
  cases (w.setEndpoint { w.endpoint with closed := true }).top? with
  | none => exact ⟨⟨hgone, n, rfl⟩, rfl⟩
  | some id => exact hclosed.resume HH (.error .closed)

variable (HH) in
/-- Twins move alike. -/
lemma Twin.move (h : Twin w w') {ps : WorkerPrograms σ WH} {v : WorkerSide σ WH β}
    (hmove : w.move? ps = some v) : ∃ v', w'.move? ps = some v' ∧ Twin v v' ∧
      (w'.heard ++ (w'.moveEvents ps).map .event : List (Heard HH WH)) =
        w.heard ++ (w.moveEvents ps).map .event := by
  obtain ⟨n, rfl⟩ := h.same
  have hgone := h.gone
  have hlisten : (w.renumber n).isListening = w.isListening := rfl
  have haside : (w.renumber n).top?.bind (w.renumber n).endpoint.aside? =
      w.top?.bind w.endpoint.aside? := rfl
  have hlink : (w.renumber n).link = w.link := rfl
  have hstate : (w.renumber n).state = w.state := rfl
  unfold move? at hmove ⊢
  unfold heard moveEvents
  rw [hlisten, haside, hlink, hstate]
  by_cases hlistens : w.isListening = true
  · rw [if_pos hlistens] at hmove ⊢
    rw [if_pos hlistens, if_pos hlistens]
    cases hsome : w.top?.bind w.endpoint.aside? with
    | some o =>
      simp only [hsome, Option.some.injEq] at hmove ⊢
      subst hmove
      obtain ⟨htwin, hevents⟩ := h.resume HH o
      exact ⟨_, rfl, htwin, by rw [hevents]⟩
    | none =>
      simp only [hsome] at hmove ⊢
      cases hreceive : w.link.toWorker.receive with
      | message m q =>
        simp only [hreceive, Option.some.injEq] at hmove ⊢
        subst hmove
        have hread : Twin { w with link := { w.link with toWorker := q } }
            { w.renumber n with link := { w.link with toWorker := q } } := ⟨hgone, n, rfl⟩
        obtain ⟨htwin, hevents⟩ := hread.take HH ps m
        exact ⟨_, rfl, htwin, congrArg (fun evs => [_] ++ List.map Heard.event evs) hevents⟩
      | ended =>
        simp only [hreceive, Option.some.injEq] at hmove ⊢
        subst hmove
        obtain ⟨htwin, hevents⟩ := h.disconnect HH
        exact ⟨_, rfl, htwin, by rw [hevents]⟩
      | waiting =>
        simp only [hreceive] at hmove
        cases hmove
  · rw [if_neg hlistens] at hmove
    cases hmove

/-! ## What happens later -/

omit [HasHeap σ] in
lemma managed_renumber {e e' : WorkerEndpoint WH} (h : e.Managed e') (n : UInt64) :
    WorkerEndpoint.Managed { e with nextId := n } { e' with nextId := n } := by
  cases h with
  | register h =>
    obtain ⟨hs, hadd, h⟩ := bind_eq_ok.1 h
    cases h
    exact .register (bind_eq_ok.2 ⟨hs, hadd, rfl⟩)
  | unregister method => exact .unregister method
  | expose callable => exact .expose callable
  | release handle => exact .release handle

/-- What happens on the worker's side from some moment on, one step after another, while whoever
holds the other end does what it likes. -/
inductive Later (ps : WorkerPrograms σ WH) :
    WorkerSide σ WH β → List (Heard HH WH) → WorkerSide σ WH β → Prop where
  | stop (w : WorkerSide σ WH β) : Later ps w [] w
  | step {w more w' rest w''} (h : ThreadStep ps w more w') (after : Later ps w' rest w'') :
      Later ps w (more ++ rest) w''
  | peer {w l rest w''} (h : w.link.Handled l) (after : Later ps { w with link := l } rest w'') :
      Later ps w rest w''

/-- The rest of a computation, if one is going on, and what happens later. -/
inductive Onward (ps : WorkerPrograms σ WH) :
    WorkerSide σ WH β → List (Heard HH WH) → WorkerSide σ WH β → Prop where
  | later {w log v} (h : Later ps w log v) : Onward ps w log v
  | handler {w log v} (a : CallId) (step : WorkerStep σ (Except RemoteError Value))
      (h : Later ps (w.runHandler a step) log v) :
      Onward ps w ((w.handlerEvents a step).map .event ++ log) v
  | base {w log v} (step : WorkerStep σ β) (h : Later ps (w.runBase step) log v) :
      Onward ps w ((w.baseEvents step).map .event ++ log) v

variable {ps : WorkerPrograms σ WH} {log more : List (Heard HH WH)} {v : WorkerSide σ WH β}

lemma Twin.step (h : Twin w w') (step : ThreadStep ps w more v) :
    ∃ v', ThreadStep ps w' more v' ∧ Twin v v' := by
  cases step with
  | move hmove =>
    obtain ⟨v', hmove', htwin, hheard⟩ := h.move HH hmove
    rw [← hheard]
    exact ⟨v', .move hmove', htwin⟩
  | start hrest task =>
    obtain ⟨htwin, hevents⟩ := h.base HH (task w.state)
    obtain ⟨n, rfl⟩ := h.same
    rw [← hevents]
    exact ⟨_, .start (w := w.renumber n) hrest task, htwin⟩
  | serve hrest =>
    obtain ⟨hgone, n, rfl⟩ := h
    exact ⟨_, .serve hrest, hgone, n, rfl⟩
  | close =>
    refine ⟨_, .close, ?_⟩
    obtain ⟨hgone, n, rfl⟩ := h
    have hflag : (w.renumber n).endpoint.closed = w.endpoint.closed := rfl
    unfold WorkerSide.close
    rw [hflag]
    by_cases hclosed : w.endpoint.closed = true
    · rw [if_pos hclosed, if_pos hclosed]
      exact ⟨hgone, n, rfl⟩
    · rw [if_neg hclosed, if_neg hclosed]
      exact ⟨fun hjoined => (nomatch hjoined.sending), n, rfl⟩
  | manage hmanaged =>
    obtain ⟨hgone, n, rfl⟩ := h
    exact ⟨_, .manage (managed_renumber hmanaged n), hgone, n, rfl⟩
  | work s =>
    obtain ⟨hgone, n, rfl⟩ := h
    exact ⟨_, .work s, hgone, n, rfl⟩

/-- What can happen to one of two twins can happen to the other, and the same is heard of it. -/
lemma Later.twin (later : Later ps w log v) (h : Twin w w') :
    ∃ v', Later ps w' log v' ∧ Twin v v' := by
  induction later generalizing w' with
  | stop => exact ⟨w', .stop w', h⟩
  | step hstep after ih =>
    obtain ⟨u, hstep', htwin⟩ := h.step hstep
    obtain ⟨v', hlater, hlast⟩ := ih htwin
    exact ⟨v', .step hstep' hlater, hlast⟩
  | @peer w l rest v hpeer after ih =>
    obtain ⟨hgone, n, rfl⟩ := h
    have htwin : Twin { w with link := l } { w.renumber n with link := l } :=
      ⟨fun hjoined => hgone (hpeer.joined hjoined), n, rfl⟩
    obtain ⟨v', hlater, hlast⟩ := ih htwin
    exact ⟨v', .peer hpeer hlater, hlast⟩

lemma Onward.twin (onward : Onward ps w log v) (h : Twin w w') :
    ∃ v', Onward ps w' log v' ∧ Twin v v' := by
  cases onward with
  | later hlater =>
    obtain ⟨v', hlater', hlast⟩ := hlater.twin h
    exact ⟨v', .later hlater', hlast⟩
  | handler a step hlater =>
    obtain ⟨htwin, hevents⟩ := h.handler HH a step
    obtain ⟨v', hlater', hlast⟩ := hlater.twin htwin
    rw [← hevents]
    exact ⟨v', .handler a step hlater', hlast⟩
  | base step hlater =>
    obtain ⟨htwin, hevents⟩ := h.base HH step
    obtain ⟨v', hlater', hlast⟩ := hlater.twin htwin
    rw [← hevents]
    exact ⟨v', .base step hlater', hlast⟩

/-- Up to the next number, what can happen from a worker side without a link on does not depend on
the next number. -/
lemma onward_skip_iff (hgone : ¬ w.link.toHost.Joined) :
    (∃ n, Onward ps w.skip log (v.renumber n)) ↔ ∃ n, Onward ps w log (v.renumber n) := by
  have htwin : Twin w w.skip := ⟨hgone, _, rfl⟩
  constructor
  · rintro ⟨n, honward⟩
    obtain ⟨_, honward', -, m, rfl⟩ := honward.twin htwin.symm
    exact ⟨m, honward'⟩
  · rintro ⟨n, honward⟩
    obtain ⟨_, honward', -, m, rfl⟩ := honward.twin htwin
    exact ⟨m, honward'⟩

end
end WorkerSide

/-! ## The host's end -/

/-- What is seen of an operation of the host's end. -/
inductive HostSeen where
  /-- a call is sent, or it fails at once -/
  | called (r : Except ChannelError CallId)
  /-- a message leads to something, and leaves a heap -/
  | event (e : HostEvent) (h : Heap)
  /-- calls fail because the end closes -/
  | rejected (ids : List CallId)
  | nothing

namespace HostEndpoint
variable {H : Type}

/-- The host's end with another next number. -/
def renumber (e : HostEndpoint H) (n : UInt64) : HostEndpoint H :=
  { e with nextId := n }

/-- What can be done with the host's end and its link. Whoever holds the other end of the link does
what it likes, but what is gone of the link does not come back. -/
inductive Does : HostEndpoint H → Link → HostSeen → HostEndpoint H → Link → Prop where
  | call {e l h target xs r e' l'} (hcall : startCall e l h target xs = (r, e', l')) :
      Does e l (.called r) e' l'
  | dispatch {e l h m q ev e' h'} (hreceive : l.toHost.receive = .message m q)
      (hdispatch : dispatch e h m = (ev, e', h')) :
      Does e l (.event ev h') e' { l with toHost := q }
  | close {e l ids e' l'} (hclose : close e l = (ids, e', l')) : Does e l (.rejected ids) e' l'
  | finish {e l ids e' l'} (hended : l.toHost.receive = .ended)
      (hfinish : finish e l = (ids, e', l')) : Does e l (.rejected ids) e' l'
  | answer {e l} (m : Message) : Does e l .nothing e (post l m)
  | manage {e l e'} (h : e.Managed e') : Does e l .nothing e' l
  | peer {e l l'} (h : l'.toWorker.Joined → l.toWorker.Joined) : Does e l .nothing e l'

/-- What is done with it from some moment on, one operation after another. -/
inductive Later : HostEndpoint H → Link → List HostSeen → HostEndpoint H → Link → Prop where
  | stop (e : HostEndpoint H) (l : Link) : Later e l [] e l
  | step {e l x e' l' xs e'' l''} (h : Does e l x e' l') (after : Later e' l' xs e'' l'') :
      Later e l (x :: xs) e'' l''

variable {e e' : HostEndpoint H} {l l' : Link} {x : HostSeen} {xs : List HostSeen}

lemma managed_renumber (h : e.Managed e') (n : UInt64) :
    (e.renumber n).Managed (e'.renumber n) := by
  cases h with
  | register h =>
    obtain ⟨hs, hadd, h⟩ := bind_eq_ok.1 h
    cases h
    exact .register (bind_eq_ok.2 ⟨hs, hadd, rfl⟩)
  | unregister method => exact .unregister method
  | expose callable => exact .expose callable
  | release handle => exact .release handle

lemma dispatch_renumber (e : HostEndpoint H) (n : UInt64) (h : Heap) (m : Message) :
    (e.renumber n).dispatch h m =
      ((e.dispatch h m).1, (e.dispatch h m).2.1.renumber n, (e.dispatch h m).2.2) := by
  have hpending : (e.renumber n).pending = e.pending := rfl
  unfold dispatch
  cases m with
  | call => rfl
  | reply id v =>
    dsimp only
    rw [hpending]
    cases Message.outcome? h (.reply id v) with
    | none => rfl
    | some read =>
      dsimp only
      split <;> rfl
  | fail id err =>
    dsimp only
    rw [hpending]
    cases Message.outcome? h (.fail id err) with
    | none => rfl
    | some read =>
      dsimp only
      split <;> rfl

/-- Closing takes the sender away, and what is gone stays gone. -/
lemma close_renumber (hgone : ¬ l.toWorker.Joined) (n : UInt64) :
    (e.renumber n).close l = ((e.close l).1, (e.close l).2.1.renumber n, (e.close l).2.2) ∧
      ¬ (e.close l).2.2.toWorker.Joined := by
  have hflag : (e.renumber n).closed = e.closed := rfl
  unfold close
  rw [hflag]
  by_cases hclosed : e.closed = true
  · rw [if_pos hclosed, if_pos hclosed]
    exact ⟨rfl, hgone⟩
  · rw [if_neg hclosed, if_neg hclosed]
    exact ⟨rfl, fun hjoined => nomatch hjoined.sending⟩

lemma Does.twin (h : e.Does l x e' l') (hgone : ¬ l.toWorker.Joined) (n : UInt64) :
    (∃ m, (e.renumber n).Does l x (e'.renumber m) l') ∧ ¬ l'.toWorker.Joined := by
  cases h with
  | @call hp target xs _ _ _ hcall =>
    have hcall' := startCall_of_not_joined (e := e.renumber n) hgone hp target xs
    rw [startCall_of_not_joined hgone] at hcall
    cases hpack : packArgs hp xs with
    | error err =>
      rw [hpack] at hcall hcall'
      cases hcall
      exact ⟨⟨n, .call hcall'⟩, hgone⟩
    | ok args =>
      rw [hpack] at hcall hcall'
      cases hcall
      exact ⟨⟨n + 1, .call hcall'⟩, hgone⟩
  | @dispatch hp msg _ _ _ _ hreceive hdispatch =>
    have hdispatch' := dispatch_renumber e n hp msg
    rw [hdispatch] at hdispatch'
    exact ⟨⟨n, .dispatch hreceive hdispatch'⟩, hgone⟩
  | close hclose =>
    obtain ⟨hclose', hgone'⟩ := close_renumber (e := e) hgone n
    rw [hclose] at hclose' hgone'
    exact ⟨⟨n, .close hclose'⟩, hgone'⟩
  | finish hended hfinish =>
    obtain ⟨hclose', hgone'⟩ := close_renumber (e := e) hgone n
    have hfinish' : (e.renumber n).finish l =
        ((e.finish l).1, (e.finish l).2.1.renumber n, (e.finish l).2.2) := by
      simp only [HostEndpoint.finish, hclose']
      rfl
    have hlost : ¬ (e.finish l).2.2.toWorker.Joined := hgone'
    rw [hfinish] at hfinish' hlost
    exact ⟨⟨n, .finish hended hfinish'⟩, hlost⟩
  | answer m =>
    refine ⟨⟨n, .answer m⟩, ?_⟩
    rw [post_of_not_joined hgone]
    exact hgone
  | manage hmanaged => exact ⟨⟨n, .manage (managed_renumber hmanaged n)⟩, hgone⟩
  | peer hpeer => exact ⟨⟨n, .peer hpeer⟩, fun hjoined => hgone (hpeer hjoined)⟩

/-- Without a link, what can be done with an end can be done with one that has another next number,
and the same is seen of it. -/
lemma Later.twin (later : e.Later l xs e' l') (hgone : ¬ l.toWorker.Joined) (n : UInt64) :
    ∃ m, (e.renumber n).Later l xs (e'.renumber m) l' := by
  induction later generalizing n with
  | stop => exact ⟨n, .stop _ _⟩
  | step hdoes after ih =>
    obtain ⟨⟨k, hdoes'⟩, hgone'⟩ := hdoes.twin hgone n
    obtain ⟨m, hlater⟩ := ih hgone' k
    exact ⟨m, .step hdoes' hlater⟩

/-- The host's end after a number has been skipped. -/
def skip (e : HostEndpoint H) : HostEndpoint H :=
  e.renumber (e.nextId + 1)

/-- Up to the next number, what can be done with an end without a link does not depend on the next
number. -/
lemma later_skip_iff (hgone : ¬ l.toWorker.Joined) :
    (∃ n, e.skip.Later l xs (e'.renumber n) l') ↔ ∃ n, e.Later l xs (e'.renumber n) l' := by
  constructor
  · rintro ⟨n, hlater⟩
    obtain ⟨m, hlater'⟩ := hlater.twin hgone e.nextId
    exact ⟨m, hlater'⟩
  · rintro ⟨n, hlater⟩
    obtain ⟨m, hlater'⟩ := hlater.twin hgone (e.nextId + 1)
    exact ⟨m, hlater'⟩

end HostEndpoint
end WorkerHost
