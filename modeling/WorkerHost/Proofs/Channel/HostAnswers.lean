import WorkerHost.Proofs.Channel.Closing
import WorkerHost.Proofs.Channel.Hangup
import WorkerHost.Proofs.Channel.Network
import WorkerHost.Proofs.Channel.WorkerAnswers

/-!
# The answers of a host

A host serves every call of a worker by a task of its own. Tasks run until they wait for a call, for
a read of a terminal or for what never comes, in whatever order, and they share a state with all
that goes on at other channels. At one channel the tasks that wait for it are what the frames of the
stack are at a worker.

* `Network.Exchange`: the calls that a host takes at a channel and the messages that it sends there,
  whatever the peer and all others do;
* `Network.Exchange.attended`: all these calls are accounted for;
* `inbound_calls_answered_once`: one answer to each call at either end, and the same one.
-/

namespace WorkerHost

/-! ## Tasks that wait -/

/-- A task waits for the answer to a question that a computation has come to. -/
inductive Waiting.CutOff {σ α : Type} (x : HostStep σ α) : Waiting σ α → Prop where
  | call {j target args id s resume} (h : x.Leads (.ask (.call j target args) s resume)) :
      CutOff x (.call j id resume)
  | line {session read s resume} (h : x.Leads (.ask (.line session read) s resume)) :
      CutOff x (.line session read resume)
  | never {s resume} (h : x.Leads (.ask .never s resume)) : CutOff x .never

namespace Network
variable {σ HH WH β ρ : Type}

/-- The messages on the queue to a worker. -/
def messagesTo (y : Network σ HH WH β ρ) (i : ℕ) : List Message :=
  match y.channels[i]? with
  | some c => c.link.toWorker.messages
  | none => []

/-- Whether the queue to a worker has both its ends. -/
def JoinedAt (y : Network σ HH WH β ρ) (i : ℕ) : Prop :=
  ∃ c, y.channels[i]? = some c ∧ c.link.toWorker.Joined

/-- The tasks that serve calls of a channel and wait. -/
def tasksAt (y : Network σ HH WH β ρ) (i : ℕ) : List (Serving σ) :=
  y.serving.filter (·.channel = i)

section
variable [HasHeap σ]

/-- A call that the host takes at a channel to serve it, with what its target names by then. -/
def inquiry? (y : Network σ HH WH β ρ) (i : ℕ) : Option (Inquiry HH) :=
  match y.channels[i]? with
  | some c =>
    match c.link.toHost.receive with
    | .message (.call id target args) _ =>
      -- taking a message leaves the heap in its place, whatever it is
      some ⟨id, target, args, HasHeap.heap (HasHeap.setHeap (HasHeap.heap y.state) y.state),
        c.host.handlerFor target⟩
    | _ => none
  | none => none

/-- What a host does, and the calls that it takes at a channel meanwhile. -/
inductive Acts (qs : Programs σ HH WH) (i : ℕ) :
    Network σ HH WH β ρ → List (Inquiry HH) → Network σ HH WH β ρ → Prop where
  | dispatch {y y'} (j : ℕ) (h : y.dispatch? qs j = some y') :
      Acts qs i y (if j = i then (y.inquiry? i).toList else []) y'
  | wake {y y'} (h : y.wake? qs = some y') : Acts qs i y [] y'
  | spawn {y} (task : HostTask σ ρ) : Acts qs i y [] (y.spawn task).2
  | abandon {y} (ticket : ℕ) : Acts qs i y [] (y.abandon ticket)
  | close {y} (j : ℕ) : Acts qs i y [] (y.closeHost j)

/-- What happens around it: workers move, whoever holds the other ends of links does what it likes
with them, handlers come and go, there is one channel more, or whatever else works on the state. -/
inductive Around (qs : Programs σ HH WH) (i : ℕ) :
    Network σ HH WH β ρ → Network σ HH WH β ρ → Prop where
  | advance {y y'} (j : ℕ) (h : y.advance? qs j = some y') : Around qs i y y'
  /-- an end of a queue that is gone does not come back -/
  | peer {y j c l t} (hc : y.channels[j]? = some c)
      (h : l.toWorker.Joined → c.link.toWorker.Joined) :
      Around qs i y (y.setChannel j { c with link := l, thread := t })
  | manage {y j c e} (hc : y.channels[j]? = some c) (h : c.host.Managed e) :
      Around qs i y (y.setChannel j { c with host := e })
  | connect {y c} (h : y.channels.size ≠ i) :
      Around qs i y { y with channels := y.channels.push c }
  | work {y} (s : σ) : Around qs i y { y with state := s }

/-- What happens from a moment on in which no call of a channel is being served: the calls that the
host takes there, and the messages that it puts on the queue to the worker. -/
inductive Exchange (qs : Programs σ HH WH) (i : ℕ) :
    Network σ HH WH β ρ → List (Inquiry HH) → List Message → Prop where
  | start {y} (h : y.tasksAt i = []) : Exchange qs i y [] []
  | act {y taken sent more y'} (before : Exchange qs i y taken sent) (h : Acts qs i y more y') :
      Exchange qs i y' (taken ++ more)
        (sent ++ (y'.messagesTo i).drop (y.messagesTo i).length)
  | around {y taken sent y'} (before : Exchange qs i y taken sent) (h : Around qs i y y') :
      Exchange qs i y' taken sent

end

/-! ## What tasks do to a channel -/

variable {y y' y'' : Network σ HH WH β ρ} {i j : ℕ}

lemma messagesTo_setChannel {c : Channel σ HH WH β} (hc : y.channels[i]? = some c)
    (d : Channel σ HH WH β) : (y.setChannel i d).messagesTo i = d.link.toWorker.messages := by
  simp only [messagesTo, y.getElem?_setChannel hc]

lemma joinedAt_setChannel {c : Channel σ HH WH β} (hc : y.channels[i]? = some c)
    (d : Channel σ HH WH β) : (y.setChannel i d).JoinedAt i ↔ d.link.toWorker.Joined := by
  simp only [JoinedAt, y.getElem?_setChannel hc, Option.some.injEq, exists_eq_left']

lemma messagesTo_of_channel {c : Channel σ HH WH β} (hc : y.channels[i]? = some c) :
    y.messagesTo i = c.link.toWorker.messages := by
  simp only [messagesTo, hc]

lemma joinedAt_of_channel {c : Channel σ HH WH β} (hc : y.channels[i]? = some c) :
    y.JoinedAt i ↔ c.link.toWorker.Joined := by
  simp only [JoinedAt, hc, Option.some.injEq, exists_eq_left']

/-- At a channel no more than calls are sent, and no task comes or goes. -/
structure Asks (i : ℕ) (y y' : Network σ HH WH β ρ) : Prop where
  tasks : y'.tasksAt i = y.tasksAt i
  messages : ∃ more, y'.messagesTo i = y.messagesTo i ++ more ∧ ∀ m ∈ more, m.isAnswer = false
  joined : y'.JoinedAt i → y.JoinedAt i

lemma Asks.of_same (htasks : y'.tasksAt i = y.tasksAt i)
    (hchannel : y'.channels[i]? = y.channels[i]?) : Asks i y y' := by
  refine ⟨htasks, ⟨[], ?_, by simp⟩, ?_⟩
  · rw [List.append_nil, messagesTo, messagesTo, hchannel]
  · rw [JoinedAt, JoinedAt, hchannel]
    exact id

lemma Asks.refl (y : Network σ HH WH β ρ) : Asks i y y :=
  .of_same rfl rfl

lemma Asks.trans (h : Asks i y y') (h' : Asks i y' y'') : Asks i y y'' := by
  obtain ⟨more, hmore, hcalls⟩ := h.messages
  obtain ⟨more', hmore', hcalls'⟩ := h'.messages
  refine ⟨h'.tasks.trans h.tasks, ⟨more ++ more', ?_, ?_⟩, fun hj => h.joined (h'.joined hj)⟩
  · rw [hmore', hmore, List.append_assoc]
  · intro m hm
    exact (List.mem_append.1 hm).elim (hcalls m) (hcalls' m)

/-- A channel whose queue to the worker gets no answers, and loses an end at most. -/
lemma Asks.setChannel {c d : Channel σ HH WH β} (hc : y.channels[j]? = some c) {more : List Message}
    (hmore : d.link.toWorker.messages = c.link.toWorker.messages ++ more)
    (hcalls : ∀ m ∈ more, m.isAnswer = false)
    (hjoined : d.link.toWorker.Joined → c.link.toWorker.Joined) : Asks i y (y.setChannel j d) := by
  by_cases hne : j = i
  · subst hne
    refine ⟨rfl, ⟨more, ?_, hcalls⟩, ?_⟩
    · rw [messagesTo_setChannel hc, messagesTo_of_channel hc, hmore]
    · rw [joinedAt_setChannel hc, joinedAt_of_channel hc]
      exact hjoined
  · exact .of_same rfl (y.getElem?_setChannel_of_ne hne d)

lemma Asks.setChannel_quiet {c d : Channel σ HH WH β} (hc : y.channels[j]? = some c)
    (hsame : d.link.toWorker.messages = c.link.toWorker.messages)
    (hjoined : d.link.toWorker.Joined → c.link.toWorker.Joined) : Asks i y (y.setChannel j d) :=
  .setChannel hc (hsame.trans (List.append_nil _).symm) (by simp) hjoined

variable [HasHeap σ]

omit [HasHeap σ] in
/-- A call of the host sends its message, if it sends anything. -/
lemma Asks.startCall {c : Channel σ HH WH β} (hc : y.channels[j]? = some c) (h : Heap)
    (target : Target) (args : List Value) :
    Asks i y (y.setChannel j
      { c with
        host := (c.host.startCall c.link h target args).2.1
        link := (c.host.startCall c.link h target args).2.2 }) := by
  by_cases hjoined : c.link.toWorker.Joined
  · unfold HostEndpoint.startCall
    cases packArgs h args with
    | error e => exact .setChannel_quiet hc rfl id
    | ok w =>
      simp only [Queue.send?_eq hjoined]
      exact .setChannel hc rfl (by simp [Message.isAnswer]) fun _ => hjoined
  · rw [HostEndpoint.startCall_of_not_joined hjoined]
    cases packArgs h args with
    | error e => exact .setChannel_quiet hc rfl id
    | ok w => exact .setChannel_quiet hc rfl id

/-- Whatever a task does until it waits or ends, it makes calls at most. -/
lemma runStep_asks {α : Type} (y : Network σ HH WH β ρ) (step : HostStep σ α) :
    Asks i y (y.runStep step).2 := by
  induction step generalizing y with
  | done a s => exact .of_same rfl rfl
  | ask question s resume ih =>
    have hstate : Asks i y { y with state := s } := .of_same rfl rfl
    cases question with
    | line session read => exact hstate
    | never => exact hstate
    | sleep millis => exact ih () s y
    | call j target args =>
      unfold Network.runStep
      dsimp only
      cases hc : y.channels[j]? with
      | none => exact hstate.trans (ih _ s _)
      | some c =>
        have hcall : Asks i { y with state := s } _ :=
          Asks.startCall (y := { y with state := s }) hc (HasHeap.heap s) target args
        dsimp only
        generalize c.host.startCall c.link (HasHeap.heap s) target args = r at hcall
        obtain ⟨err | id, host, link⟩ := r
        · exact hstate.trans (hcall.trans (ih _ s _))
        · exact hstate.trans hcall

/-- A task ends with a result of its computation, in the state that this leaves, or it waits where
the computation is cut off. -/
lemma runStep_leads {α : Type} {x : HostStep σ α} (y : Network σ HH WH β ρ) (step : HostStep σ α)
    (h : x.Leads step) :
    (∃ a, (y.runStep step).1 = .inl a ∧ x.Leads (.done a (y.runStep step).2.state)) ∨
      ∃ t, (y.runStep step).1 = .inr t ∧ t.CutOff x := by
  induction step generalizing y with
  | done a s => exact .inl ⟨a, rfl, h⟩
  | ask question s resume ih =>
    cases question with
    | line session read => exact .inr ⟨_, rfl, .line h⟩
    | never => exact .inr ⟨_, rfl, .never h⟩
    | sleep millis => exact ih () s y (h.ask _ _)
    | call j target args =>
      unfold Network.runStep
      dsimp only
      cases y.channels[j]? with
      | none => exact ih _ s _ (h.ask _ _)
      | some c =>
        dsimp only
        generalize c.host.startCall c.link (HasHeap.heap s) target args = r
        obtain ⟨err | id, host, link⟩ := r
        · exact ih _ s _ (h.ask _ _)
        · exact .inr ⟨_, rfl, .call h⟩

/-! ## The account of a channel -/

/-- A task waits on behalf of a call: it is to answer it, and it holds what is left of the
computation that was started for it. -/
structure WaitsFor (programs : HH → List Value → HostTask σ (Except RemoteError Value))
    (q : Inquiry HH) (t : Serving σ) : Prop where
  answering : t.id = q.id
  rest : ∃ k xs h s, q.inbound "host" = .run k xs h ∧
    t.waiting.CutOff (programs k xs (HasHeap.setHeap h s))

/-- All calls that the host has taken at a channel are accounted for, by the tasks that wait and
what it has sent there. -/
def Attends (programs : HH → List Value → HostTask σ (Except RemoteError Value)) (i : ℕ)
    (y : Network σ HH WH β ρ) (taken : List (Inquiry HH)) (sent : List Message) : Prop :=
  Attended (WaitsFor programs) (fun q m => q.Decided "host" (outcomesOf programs) m) taken
    (y.tasksAt i) (y.JoinedAt i) sent

/-- They are accounted for after something that the host has done. -/
def AttendsAfter (programs : HH → List Value → HostTask σ (Except RemoteError Value)) (i : ℕ)
    (y y' : Network σ HH WH β ρ) (taken : List (Inquiry HH)) (sent : List Message) : Prop :=
  ∃ more, y'.messagesTo i = y.messagesTo i ++ more ∧ Attends programs i y' taken (sent ++ more)

variable {programs : HH → List Value → HostTask σ (Except RemoteError Value)}
  {taken taken' : List (Inquiry HH)} {sent : List Message} {q : Inquiry HH}

/-- One thing after another. -/
lemma AttendsAfter.bind (h : AttendsAfter programs i y y' taken sent)
    (hnext : ∀ sent', Attends programs i y' taken sent' →
      AttendsAfter programs i y' y'' taken' sent') :
    AttendsAfter programs i y y'' taken' sent := by
  obtain ⟨more, hmore, hattends⟩ := h
  obtain ⟨more', hmore', hattends'⟩ := hnext _ hattends
  refine ⟨more ++ more', ?_, ?_⟩
  · rw [hmore', hmore, List.append_assoc]
  · rw [← List.append_assoc]
    exact hattends'

lemma AttendsAfter.perm (h : AttendsAfter programs i y y' taken sent) (hperm : taken'.Perm taken) :
    AttendsAfter programs i y y' taken' sent := by
  obtain ⟨more, hmore, hattends⟩ := h
  exact ⟨more, hmore, Attended.perm hattends hperm⟩

lemma Attends.asks (h : Attends programs i y taken sent) (ha : Asks i y y') :
    AttendsAfter programs i y y' taken sent := by
  obtain ⟨more, hmore, hcalls⟩ := ha.messages
  refine ⟨more, hmore, ?_⟩
  rw [Attends, ha.tasks]
  exact (Attended.calls h hcalls).congr ha.joined

lemma Attends.same (h : Attends programs i y taken sent) (htasks : y'.tasksAt i = y.tasksAt i)
    (hchannel : y'.channels[i]? = y.channels[i]?) : AttendsAfter programs i y y' taken sent :=
  h.asks (.of_same htasks hchannel)

/-- The answer to a call is sent, or it is lost. -/
lemma Attends.post (h : Attends programs i y taken sent) {c : Channel σ HH WH β}
    (hc : y.channels[i]? = some c) {m : Message}
    (hm : q.Decided "host" (outcomesOf programs) m) :
    AttendsAfter programs i y (y.setChannel i { c with link := HostEndpoint.post c.link m })
      (q :: taken) sent := by
  by_cases hjoined : c.link.toWorker.Joined
  · rw [HostEndpoint.post_of_joined hjoined]
    refine ⟨[m], ?_, ?_⟩
    · rw [messagesTo_setChannel hc, messagesTo_of_channel hc]
      rfl
    · refine Attended.congr (h.finish hm hm.answers.1 (.inl rfl)) fun _ => ?_
      exact (joinedAt_of_channel hc).2 hjoined
  · have hnot : ¬ y.JoinedAt i := fun hj => hjoined ((joinedAt_of_channel hc).1 hj)
    rw [HostEndpoint.post_of_not_joined hjoined]
    refine ⟨[], ?_, ?_⟩
    · rw [messagesTo_setChannel hc, messagesTo_of_channel hc, List.append_nil]
    · refine Attended.congr (h.finish hm hm.answers.1 (.inr ⟨hnot, rfl⟩)) fun hj => ?_
      exact absurd ((joinedAt_setChannel hc _).1 hj) hjoined

/-! ## Tasks -/

/-- A task that serves a call of the channel ends with the answer, or it waits. -/
lemma Attends.continueServing_self (h : Attends programs i y taken sent)
    {step : HostStep σ (Except RemoteError Value)} (hgoes : q.Goes programs "host" step) :
    AttendsAfter programs i y (y.continueServing i q.id step) (q :: taken) sent := by
  obtain ⟨k, xs, hp, s₀, hrun, hstarted⟩ := hgoes
  have hasks : Asks i y (y.runStep step).2 := y.runStep_asks step
  have hleads := y.runStep_leads step hstarted
  unfold Network.continueServing
  generalize y.runStep step = r at hasks hleads
  refine (h.asks hasks).bind fun sent' h' => ?_
  obtain ⟨outcome | waiting, y'⟩ := r
  · have hdone : q.Goes programs "host" (.done outcome y'.state) := by
      rcases hleads with ⟨_, ⟨⟩, hdone⟩ | ⟨_, hwaits, -⟩
      · exact ⟨k, xs, hp, s₀, hrun, hdone⟩
      · cases hwaits
    dsimp only
    cases hc : y'.channels[i]? with
    | some c => exact h'.post hc hdone.decided
    | none =>
      have hnot : ¬ y'.JoinedAt i := by
        rintro ⟨c, hc', -⟩
        cases hc.symm.trans hc'
      exact ⟨[], (List.append_nil _).symm,
        h'.finish hdone.decided hdone.decided.answers.1 (.inr ⟨hnot, rfl⟩)⟩
  · have hcut : waiting.CutOff (programs k xs (HasHeap.setHeap hp s₀)) := by
      rcases hleads with ⟨_, hended, -⟩ | ⟨_, ⟨⟩, hcut⟩
      · cases hended
      · exact hcut
    have htasks : tasksAt { y' with serving := y'.serving ++ [⟨i, q.id, waiting⟩] } i =
        y'.tasksAt i ++ [⟨i, q.id, waiting⟩] := by
      simp [tasksAt]
    refine ⟨[], (List.append_nil _).symm, ?_⟩
    rw [List.append_nil, Attends, htasks]
    refine Attended.wait ?_ ⟨rfl, k, xs, hp, s₀, hrun, hcut⟩
    rw [List.append_nil]
    exact h'

lemma Attends.continueServing_of_ne (h : Attends programs i y taken sent) (hne : j ≠ i)
    (id : CallId) (step : HostStep σ (Except RemoteError Value)) :
    AttendsAfter programs i y (y.continueServing j id step) taken sent := by
  have hasks : Asks i y (y.runStep step).2 := y.runStep_asks step
  unfold Network.continueServing
  generalize y.runStep step = r at hasks
  refine (h.asks hasks).bind fun sent' h' => ?_
  obtain ⟨outcome | waiting, y'⟩ := r
  · dsimp only
    cases y'.channels[j]? with
    | none => exact h'.same rfl rfl
    | some d => exact h'.same rfl (y'.getElem?_setChannel_of_ne hne _)
  · exact h'.same (by simp [tasksAt, hne]) rfl

lemma Attends.continueRunning (h : Attends programs i y taken sent) (ticket : ℕ)
    (step : HostStep σ ρ) :
    AttendsAfter programs i y (y.continueRunning ticket step) taken sent := by
  have hasks : Asks i y (y.runStep step).2 := y.runStep_asks step
  unfold Network.continueRunning
  generalize y.runStep step = r at hasks
  refine (h.asks hasks).bind fun sent' h' => ?_
  obtain ⟨result | waiting, y'⟩ := r
  · exact h'.same rfl rfl
  · exact h'.same rfl rfl

/-- A task that was waiting goes on with an answer to its question, whatever channel it serves. -/
lemma Attends.continueTaken (h : Attends programs i y taken sent) {before after : List (Serving σ)}
    {t : Serving σ} (hserving : y.serving = before ++ t :: after)
    {step : HostStep σ (Except RemoteError Value)}
    (hstep : ∀ x, t.waiting.CutOff x → x.Leads step) :
    AttendsAfter programs i y
      (continueServing { y with serving := before ++ after } t.channel t.id step) taken sent := by
  by_cases hne : t.channel = i
  · have htasks : y.tasksAt i =
        before.filter (·.channel = i) ++ t :: after.filter (·.channel = i) := by
      simp [tasksAt, hserving, hne]
    have hrest : tasksAt { y with serving := before ++ after } i =
        before.filter (·.channel = i) ++ after.filter (·.channel = i) := by
      simp [tasksAt]
    rw [Attends, htasks] at h
    obtain ⟨q, taken', hwaits, hperm, hattends⟩ := h.remove
    obtain ⟨k, xs, hp, s, hrun, hcut⟩ := hwaits.rest
    have htaken : Attends programs i { y with serving := before ++ after } taken' sent := by
      rw [Attends, hrest]
      exact hattends
    have hafter := (htaken.continueServing_self ⟨k, xs, hp, s, hrun, hstep _ hcut⟩).perm hperm
    rw [← hwaits.answering] at hafter
    rw [hne]
    exact hafter
  · have hother : AttendsAfter programs i y { y with serving := before ++ after } taken sent :=
      h.same (by simp [tasksAt, hserving, hne]) rfl
    exact hother.bind fun sent' h' => h'.continueServing_of_ne hne _ _

/-- The task that waits for a call goes on with its outcome. -/
lemma Attends.resolve (h : Attends programs i y taken sent) (channel : ℕ) (id : CallId)
    (outcome : CallOutcome) :
    AttendsAfter programs i y (y.resolve channel id outcome) taken sent := by
  obtain ⟨before, t, after, resume, hserving, hwaiting, heq⟩ |
    ⟨before, t, after, resume, -, -, heq⟩ | heq := y.resolve_cases channel id outcome
  · rw [heq]
    refine h.continueTaken hserving fun x hcut => ?_
    rw [hwaiting] at hcut
    cases hcut with
    | call hleads => exact hleads.ask outcome y.state
  · rw [heq]
    have hrest : AttendsAfter programs i y { y with running := before ++ after } taken sent :=
      h.same rfl rfl
    exact hrest.bind fun sent' h' => h'.continueRunning _ _
  · rw [heq]
    exact h.same rfl rfl

lemma Attends.reject (h : Attends programs i y taken sent) (channel : ℕ) (ids : List CallId) :
    AttendsAfter programs i y (y.reject channel ids) taken sent := by
  unfold Network.reject
  induction ids generalizing y sent with
  | nil => exact h.same rfl rfl
  | cons id ids ih => exact (h.resolve channel id _).bind fun sent' h' => ih h'

/-- A task whose read has ended goes on. -/
lemma Attends.wake {qs : Programs σ HH WH} (h : Attends programs i y taken sent)
    (hwake : y.wake? qs = some y') : AttendsAfter programs i y y' taken sent := by
  obtain ⟨before, t, after, _, _, line, resume, hserving, -, hwaiting, rfl⟩ |
    ⟨before, t, after, _, _, line, resume, -, -, -, rfl⟩ := wake_cases hwake
  · refine h.continueTaken hserving fun x hcut => ?_
    rw [hwaiting] at hcut
    cases hcut with
    | line hleads => exact hleads.ask line y.state
  · have hrest : AttendsAfter programs i y { y with running := before ++ after } taken sent :=
      h.same rfl rfl
    exact hrest.bind fun sent' h' => h'.continueRunning _ _

/-! ## Messages -/

/-- What is served at a channel is a call that lies at the front of its queue. -/
lemma inquiry?_eq_some_iff {c : Channel σ HH WH β} (hc : y.channels[i]? = some c) :
    y.inquiry? i = some q ↔ ∃ rest,
      c.link.toHost.receive = .message (.call q.id q.target q.args) rest ∧
      q.heap = HasHeap.heap (HasHeap.setHeap (HasHeap.heap y.state) y.state) ∧
      q.found = c.host.handlerFor q.target := by
  unfold inquiry?
  rw [hc]
  dsimp only
  constructor
  · intro h
    split at h
    · next id target args rest hreceive =>
      cases h
      exact ⟨rest, hreceive, rfl, rfl⟩
    · cases h
  · rintro ⟨rest, hreceive, hheap, hfound⟩
    rw [hreceive]
    dsimp only
    rw [← hheap, ← hfound]

/-- Where the front of a queue is no call, nothing is served. -/
lemma inquiries_eq_nil {c : Channel σ HH WH β} (hc : y.channels[j]? = some c)
    (hquiet : ∀ id target args rest,
      c.link.toHost.receive ≠ .message (.call id target args) rest) :
    (if j = i then (y.inquiry? i).toList else []) = [] := by
  by_cases hne : j = i
  · subst hne
    rw [if_pos rfl, Option.toList_eq_nil_iff, Option.eq_none_iff_forall_ne_some]
    intro q hq
    obtain ⟨rest, hreceive, -⟩ := (inquiry?_eq_some_iff hc).1 hq
    exact hquiet _ _ _ _ hreceive
  · exact if_neg hne

lemma Attends.serve_self {qs : Programs σ HH WH} (h : Attends (qs.host i) i y taken sent)
    {c : Channel σ HH WH β} (hc : y.channels[i]? = some c) (id : CallId) (target : Target)
    (args : Wire) :
    AttendsAfter (qs.host i) i y (y.serve qs i c id target args)
      (⟨id, target, args, HasHeap.heap y.state, c.host.handlerFor target⟩ :: taken) sent := by
  let q : Inquiry HH := ⟨id, target, args, HasHeap.heap y.state, c.host.handlerFor target⟩
  unfold Network.serve
  cases hinbound : q.inbound "host" with
  | refused e =>
    rw [show Inbound.of "host" _ _ target args = _ from hinbound]
    exact h.post (q := q) hc (Inquiry.decided_of_refused hinbound)
  | run k xs hp =>
    rw [show Inbound.of "host" _ _ target args = _ from hinbound]
    have hstate : AttendsAfter (qs.host i) i y { y with state := HasHeap.setHeap hp y.state } taken
        sent := h.same rfl rfl
    exact hstate.bind fun sent' h' =>
      h'.continueServing_self (q := q) ⟨k, xs, hp, y.state, hinbound, .refl⟩

lemma Attends.serve_of_ne {qs : Programs σ HH WH} (h : Attends programs i y taken sent)
    (hne : j ≠ i) (c : Channel σ HH WH β) (id : CallId) (target : Target) (args : Wire) :
    AttendsAfter programs i y (y.serve qs j c id target args) taken sent := by
  unfold Network.serve
  split
  · exact h.same rfl (y.getElem?_setChannel_of_ne hne _)
  · next k xs hp hrun =>
    have hstate : AttendsAfter programs i y { y with state := HasHeap.setHeap hp y.state } taken
        sent := h.same rfl rfl
    exact hstate.bind fun sent' h' => h'.continueServing_of_ne hne _ _

omit [HasHeap σ] in
/-- An end that closes loses its sender at most. -/
lemma close_quiet (e : HostEndpoint HH) (l : Link) :
    (e.close l).2.2.toWorker.messages = l.toWorker.messages ∧
      ((e.close l).2.2.toWorker.Joined → l.toWorker.Joined) := by
  unfold HostEndpoint.close
  split
  · exact ⟨rfl, id⟩
  · exact ⟨rfl, fun hjoined => nomatch hjoined.sending⟩

lemma Attends.close (h : Attends programs i y taken sent) (j : ℕ) :
    AttendsAfter programs i y (y.closeHost j) taken sent := by
  unfold closeHost
  cases hc : y.channels[j]? with
  | none => exact h.same rfl rfl
  | some c =>
    obtain ⟨hmessages, hjoined⟩ := close_quiet c.host c.link
    dsimp only
    generalize c.host.close c.link = r at hmessages hjoined
    obtain ⟨ids, host, link⟩ := r
    have hclosed : Asks i y (y.setChannel j { c with host := host, link := link }) :=
      .setChannel_quiet hc hmessages hjoined
    exact (h.asks hclosed).bind fun sent' h' => h'.reject j ids

/-- The host takes a message of some channel, or its end. -/
lemma Attends.dispatch {qs : Programs σ HH WH} (h : Attends (qs.host i) i y taken sent)
    (hdispatch : y.dispatch? qs j = some y') :
    AttendsAfter (qs.host i) i y y'
      (taken ++ if j = i then (y.inquiry? i).toList else []) sent := by
  obtain ⟨c, hc, hdispatch⟩ := Option.bind_eq_some_iff.1 hdispatch
  obtain ⟨-, -, hdispatch⟩ := Option.bind_eq_some_iff.1 hdispatch
  cases hreceive : c.link.toHost.receive with
  | waiting => simp [hreceive] at hdispatch
  | ended =>
    rw [inquiries_eq_nil hc (by simp [hreceive]), List.append_nil]
    simp only [hreceive, HostEndpoint.finish] at hdispatch
    obtain ⟨hmessages, hjoined⟩ := close_quiet c.host c.link
    generalize c.host.close c.link = r at hmessages hjoined hdispatch
    obtain ⟨ids, host, link⟩ := r
    cases hdispatch
    exact (h.asks (.setChannel_quiet hc hmessages hjoined)).bind fun sent' h' => h'.reject j ids
  | message m rest =>
    simp only [hreceive] at hdispatch
    have hread (host : HostEndpoint HH) (hp : Heap) : AttendsAfter (qs.host i) i y
        { y.setChannel j { c with host := host, link := { c.link with toHost := rest } } with
          state := HasHeap.setHeap hp y.state } taken sent := by
      have hasks : Asks i y
          (y.setChannel j { c with host := host, link := { c.link with toHost := rest } }) :=
        .setChannel_quiet hc rfl id
      exact (h.asks hasks).bind fun sent' h' => h'.same rfl rfl
    have hanswer (hm : m.isAnswer = true) : (if j = i then (y.inquiry? i).toList else []) = [] := by
      refine inquiries_eq_nil hc fun id target args q heq => ?_
      cases hreceive.symm.trans heq
      cases hm
    rcases c.host.dispatch_cases (HasHeap.heap y.state) m with
      ⟨hcall, id, target, args, heq⟩ | ⟨hm, -, o, h', -, heq⟩ | ⟨hm, -, h', heq⟩
    · rw [heq] at hdispatch
      cases m with
      | reply => cases hcall
      | fail => cases hcall
      | call a t x =>
        cases heq
        cases hdispatch
        by_cases hne : j = i
        · subst hne
          rw [if_pos rfl]
          have hfound : y.inquiry? j = some ⟨id, target, args,
              HasHeap.heap (HasHeap.setHeap (HasHeap.heap y.state) y.state),
              c.host.handlerFor target⟩ :=
            (inquiry?_eq_some_iff hc).2 ⟨rest, hreceive, rfl, rfl⟩
          rw [hfound]
          refine AttendsAfter.perm ?_ (List.perm_append_singleton _ _)
          exact (hread _ _).bind fun sent' h' =>
            h'.serve_self (y.getElem?_setChannel hc) id target args
        · rw [if_neg hne, List.append_nil]
          exact (hread _ _).bind fun sent' h' => h'.serve_of_ne hne _ _ _ _
    · rw [hanswer hm, List.append_nil]
      rw [heq] at hdispatch
      cases hdispatch
      exact (hread _ _).bind fun sent' h' => h'.resolve _ _ _
    · rw [hanswer hm, List.append_nil]
      rw [heq] at hdispatch
      cases hdispatch
      exact hread _ _

/-! ## Steps and runs -/

variable {qs : Programs σ HH WH} {more : List (Inquiry HH)}

lemma Attends.act (h : Attends (qs.host i) i y taken sent) (act : Acts qs i y more y') :
    AttendsAfter (qs.host i) i y y' (taken ++ more) sent := by
  cases act with
  | dispatch j hdispatch => exact h.dispatch hdispatch
  | wake hwake =>
    rw [List.append_nil]
    exact h.wake hwake
  | spawn task =>
    rw [List.append_nil]
    have hticket : AttendsAfter (qs.host i) i y { y with nextTicket := y.nextTicket + 1 } taken
        sent := h.same rfl rfl
    exact hticket.bind fun sent' h' => h'.continueRunning _ _
  | abandon ticket =>
    rw [List.append_nil]
    exact h.same rfl rfl
  | close j =>
    rw [List.append_nil]
    exact h.close j

/-- A move of a thread does not bring back an end of the queue that it takes from. -/
lemma joined_of_move {ps : WorkerPrograms σ WH} {w w' : WorkerSide σ WH β}
    (hmove : w.move? ps = some w') (hjoined : w'.link.toWorker.Joined) :
    w.link.toWorker.Joined := by
  have hmoved : WorkerSide.Moved ps w
      ((w.heard : List (Heard Unit WH)) ++ (w.moveEvents ps).map .event) w' :=
    WorkerSide.moved_of_move hmove
  generalize (w.heard : List (Heard Unit WH)) ++ (w.moveEvents ps).map .event = more at hmoved
  cases hmoved with
  | aside hcalls haside =>
    rw [(WorkerSide.resume_topped hcalls _).1.queue] at hjoined
    exact hjoined
  | taken hnone hreceive =>
    obtain ⟨-, hsending, hreceiving⟩ := Queue.eq_of_receive hreceive
    rw [(WorkerSide.take_grown ps _ _).queue] at hjoined
    exact ⟨hsending ▸ hjoined.sending, hreceiving ▸ hjoined.receiving⟩
  | ended hnone hreceive =>
    rw [(WorkerSide.disconnect_spent (WorkerSide.isListening_of_move hmove)).1] at hjoined
    exact hjoined

lemma Attends.around (h : Attends (qs.host i) i y taken sent) (around : Around qs i y y') :
    Attends (qs.host i) i y' taken sent := by
  have hpeer {j : ℕ} {c d : Channel σ HH WH β} (hc : y.channels[j]? = some c)
      (hjoined : d.link.toWorker.Joined → c.link.toWorker.Joined) :
      Attends (qs.host i) i (y.setChannel j d) taken sent := by
    refine Attended.congr h fun hj => ?_
    by_cases hne : j = i
    · subst hne
      exact (joinedAt_of_channel hc).2 (hjoined ((joinedAt_setChannel hc d).1 hj))
    · rwa [JoinedAt, y.getElem?_setChannel_of_ne hne d] at hj
  cases around with
  | advance j hadvance =>
    obtain ⟨c, hc, hadvance⟩ := Option.bind_eq_some_iff.1 hadvance
    obtain ⟨thread, -, hadvance⟩ := Option.bind_eq_some_iff.1 hadvance
    obtain ⟨w, hmove, hadvance⟩ := Option.bind_eq_some_iff.1 hadvance
    cases hadvance
    exact hpeer (d := { c with thread := some w.thread, link := w.link }) hc (joined_of_move hmove)
  | peer hc hjoined => exact hpeer hc hjoined
  | manage hc hmanaged => exact hpeer hc id
  | connect hsize =>
    refine Attended.congr h fun hj => ?_
    rwa [JoinedAt, Array.getElem?_push, if_neg (Ne.symm hsize)] at hj
  | work s => exact h

/-- At every moment all calls that the host has taken at the channel are accounted for. -/
lemma Exchange.attended (run : Exchange qs i y taken sent) :
    Attends (qs.host i) i y taken sent := by
  induction run with
  | start hidle =>
    rw [Attends, hidle]
    exact .start
  | act before hact ih =>
    obtain ⟨more, hmore, hattends⟩ := ih.act hact
    rw [hmore, List.drop_left]
    exact hattends
  | around before haround ih => exact ih.around haround

/-- Whatever a network does next is such an act, or happens around it. -/
lemma Exchange.next (run : Exchange qs i y taken sent) (hstep : y.step? qs = some y') :
    ∃ taken' sent', Exchange qs i y' (taken ++ taken') (sent ++ sent') := by
  unfold step? at hstep
  rcases (Option.orElse_eq_some _ _ _).1 hstep with hwake | ⟨-, hstep⟩
  · exact ⟨_, _, run.act (.wake hwake)⟩
  · rcases (Option.orElse_eq_some _ _ _).1 hstep with hdispatch | ⟨-, hadvance⟩
    · obtain ⟨j, -, hj⟩ := List.exists_of_findSome?_eq_some hdispatch
      exact ⟨_, _, run.act (.dispatch j hj)⟩
    · obtain ⟨j, -, hj⟩ := List.exists_of_findSome?_eq_some hadvance
      refine ⟨[], [], ?_⟩
      rw [List.append_nil, List.append_nil]
      exact run.around (.advance j hj)

/-- So is all that happens until nothing more is possible. -/
lemma Exchange.settle (run : Exchange qs i y taken sent) (fuel : ℕ) :
    ∃ taken' sent', Exchange qs i (y.settle qs fuel) (taken ++ taken') (sent ++ sent') := by
  induction fuel generalizing y taken sent with
  | zero =>
    refine ⟨[], [], ?_⟩
    rw [List.append_nil, List.append_nil]
    exact run
  | succ fuel ih =>
    unfold Network.settle
    cases hstep : y.step? qs with
    | none =>
      refine ⟨[], [], ?_⟩
      rw [List.append_nil, List.append_nil]
      exact run
    | some y' =>
      obtain ⟨taken₁, sent₁, run'⟩ := run.next hstep
      obtain ⟨taken₂, sent₂, run''⟩ := ih run'
      refine ⟨taken₁ ++ taken₂, sent₁ ++ sent₂, ?_⟩
      rw [← List.append_assoc, ← List.append_assoc]
      exact run''

/-- Nothing has run: no task has come or gone on, and no end has made a call. -/
structure RunsNothing (y y' : Network σ HH WH β ρ) : Prop where
  serving : y'.serving = y.serving
  running : y'.running = y.running
  results : y'.results = y.results
  endpoints : y'.channels.map (·.host) = y.channels.map (·.host)
  state : y'.state = HasHeap.setHeap (HasHeap.heap y.state) y.state

/-- A call that is refused runs nothing. -/
lemma Acts.of_refused (act : Acts qs i y more y') (hq : q ∈ more) (hrefused : q.Refused) :
    y.RunsNothing y' := by
  cases act with
  | dispatch j hdispatch =>
    obtain ⟨c, hc, hdispatch⟩ := Option.bind_eq_some_iff.1 hdispatch
    obtain ⟨-, -, hdispatch⟩ := Option.bind_eq_some_iff.1 hdispatch
    by_cases hne : j = i
    · subst hne
      rw [if_pos rfl, Option.mem_toList] at hq
      obtain ⟨rest, hreceive, hheap, hfound⟩ := (inquiry?_eq_some_iff hc).1 hq
      obtain ⟨e, he⟩ := hrefused.exists_refused "host"
      rw [Inquiry.inbound, hheap, hfound] at he
      simp only [hreceive, HostEndpoint.dispatch] at hdispatch
      cases hdispatch
      unfold Network.serve
      dsimp only
      split
      · refine ⟨rfl, rfl, rfl, ?_, rfl⟩
        refine Eq.trans (map_setChannel (y.getElem?_setChannel hc) ?_) (map_setChannel hc ?_)
        · rfl
        · rfl
      · next heq => cases he.symm.trans heq
    · rw [if_neg hne] at hq
      exact absurd hq List.not_mem_nil
  | _ => exact absurd hq List.not_mem_nil

end Network

/-! ## Both ends -/

/-- The tables of a host and of a worker have the same: for every method and for every handle both
have nothing, or callables that nobody can tell apart by what they come to. -/
structure SameTables {HH WH : Type} (outcomes : Outcomes HH) (outcomes' : Outcomes (WH ⊕ Function))
    (e : HostEndpoint HH) (e' : WorkerEndpoint WH) : Prop where
  methods : ∀ name, Option.Rel
    (fun k k' => Mimics outcomes outcomes' k (.inl k') ∧ Mimics outcomes' outcomes (.inl k') k)
    (e.handlers.get? name) (e'.handlers.get? name)
  handles : ∀ id, Option.Rel
    (fun k f => Mimics outcomes outcomes' k (.inr f) ∧ Mimics outcomes' outcomes (.inr f) k)
    (e.refs.get? id) (e'.refs.get? id)

section
variable {HH WH : Type} {outcomes : Outcomes HH} {outcomes' : Outcomes (WH ⊕ Function)}

/-- New ends have nothing. -/
lemma SameTables.new (name name' : String) :
    SameTables outcomes outcomes' (.new name) (.new name') where
  methods _ := .none
  handles id := by
    simp only [HostEndpoint.new, WorkerEndpoint.new, RefTable.get?, RefTable.empty,
      Std.HashMap.getElem?_empty]
    exact .none

/-- So a target names the same at both ends. -/
lemma SameTables.found {e : HostEndpoint HH} {e' : WorkerEndpoint WH}
    (h : SameTables outcomes outcomes' e e') (target : Target) :
    Option.Rel (Mimics outcomes outcomes') (e.handlerFor target) (e'.handlerFor target) ∧
      Option.Rel (Mimics outcomes' outcomes) (e'.handlerFor target) (e.handlerFor target) := by
  cases target with
  | method name =>
    have hmethod := h.methods name
    unfold HostEndpoint.handlerFor WorkerEndpoint.handlerFor
    dsimp only
    generalize e.handlers.get? name = found at hmethod ⊢
    generalize e'.handlers.get? name = found' at hmethod ⊢
    cases hmethod with
    | none => exact ⟨.none, .none⟩
    | some hsame => exact ⟨.some hsame.1, .some hsame.2⟩
  | handle id =>
    have hhandle := h.handles id
    unfold HostEndpoint.handlerFor WorkerEndpoint.handlerFor
    dsimp only
    generalize e.refs.get? id = found at hhandle ⊢
    generalize e'.refs.get? id = found' at hhandle ⊢
    cases hhandle with
    | none => exact ⟨.none, .none⟩
    | some hsame => exact ⟨.some hsame.1, .some hsame.2⟩

end

/-- Each call that an end takes to serve it has one answer. Whatever the peer and all others do, the
calls that a worker or a host has taken are those under way, whose handlers wait, and those that it
has answered, each of them once; as long as the queue has both its ends, what the end has sent as
answers are the answers of the latter, and each is decided in the order of `Inquiry.Decided`. A call
whose target names nothing, or whose arguments can not be read, runs nothing. And ends whose tables
have the same answer a call alike, but for the word for the side where a target names nothing. -/
theorem inbound_calls_answered_once {σ HH WH β ρ : Type} [HasHeap σ] (ps : WorkerPrograms σ WH)
    (qs : Programs σ HH WH) (name : String) (state : σ) (i : ℕ) :
    (∀ (w : WorkerSide σ WH β) (taken : List (Inquiry (WH ⊕ Function))) (sent : List Message),
      WorkerSide.Exchange ps name state w taken sent → WorkerSide.Attends ps w taken sent) ∧
    (∀ (w w' : WorkerSide σ WH β) (more : List (Heard Unit WH)) (q : Inquiry (WH ⊕ Function)),
      WorkerSide.ThreadStep ps w more w' → q ∈ more.filterMap w.inquiry? → q.Refused →
      w'.thread = w.thread ∧ w'.state = w.state) ∧
    (∀ (y : Network σ HH WH β ρ) (taken : List (Inquiry HH)) (sent : List Message),
      Network.Exchange qs i y taken sent → Network.Attends (qs.host i) i y taken sent) ∧
    (∀ (y y' : Network σ HH WH β ρ) (more : List (Inquiry HH)) (q : Inquiry HH),
      Network.Acts qs i y more y' → q ∈ more → q.Refused → y.RunsNothing y') ∧
    ∀ (outcomes : Outcomes HH) (outcomes' : Outcomes (WH ⊕ Function)) (e : HostEndpoint HH)
      (e' : WorkerEndpoint WH), SameTables outcomes outcomes' e e' →
      ∀ (id : CallId) (target : Target) (args : Wire) (h h' : Heap),
        (∀ m, Inquiry.Decided "host" outcomes ⟨id, target, args, h, e.handlerFor target⟩ m →
          ∃ m', Inquiry.Decided "worker" outcomes' ⟨id, target, args, h', e'.handlerFor target⟩ m' ∧
            m.Alike "host" "worker" m') ∧
        (∀ m', Inquiry.Decided "worker" outcomes' ⟨id, target, args, h', e'.handlerFor target⟩ m' →
          ∃ m, Inquiry.Decided "host" outcomes ⟨id, target, args, h, e.handlerFor target⟩ m ∧
            m'.Alike "worker" "host" m) ∧
        (SingleValued outcomes' → ∀ m m',
          Inquiry.Decided "host" outcomes ⟨id, target, args, h, e.handlerFor target⟩ m →
          Inquiry.Decided "worker" outcomes' ⟨id, target, args, h', e'.handlerFor target⟩ m' →
          m.Alike "host" "worker" m') := by
  refine ⟨fun w taken sent run => run.attended, fun w w' more q step hq => step.of_refused hq,
    fun y taken sent run => run.attended, fun y y' more q act hq => act.of_refused hq, ?_⟩
  intro outcomes outcomes' e e' htables id target args h h'
  obtain ⟨hfound, hfound'⟩ := htables.found target
  refine ⟨fun m hm => hm.alike "worker" h' hfound, fun m' hm' => hm'.alike "host" h hfound', ?_⟩
  intro hsingle m m' hm hm'
  obtain ⟨m'', hm'', halike⟩ := hm.alike "worker" h' hfound
  rw [hm'.unique hm'' hsingle]
  exact halike

/-- What a handler answers at once. -/
def promptAnswer (succeeds : Bool) : Except RemoteError Value :=
  if succeeds then .ok .null else .error ⟨"E", "no"⟩

/-- Workers and hosts whose handlers answer at once. -/
def promptPrograms : Programs Heap Bool Bool where
  host _ succeeds _ := pure (promptAnswer succeeds)
  worker _ := ⟨fun succeeds _ => pure (promptAnswer succeeds), fun _ _ => pure (.ok .null)⟩
  lineOf _ _ _ := none

/-- What handlers come to that answer at once. -/
def promptOutcomes {K : Type} (answer : K → Except RemoteError Value) : Outcomes K :=
  fun k _ h r h' => r = answer k ∧ h' = h

lemma singleValued_promptOutcomes {K : Type} (answer : K → Except RemoteError Value) :
    SingleValued (promptOutcomes answer) := by
  rintro k xs h r h₁ r' h₁' ⟨rfl, rfl⟩ ⟨rfl, rfl⟩
  exact ⟨rfl, rfl⟩

lemma promptOutcomes_mimics {K L : Type} {answer : K → Except RemoteError Value}
    {other : L → Except RemoteError Value} {k : K} {l : L} (succeeds : Bool)
    (hk : answer k = promptAnswer succeeds) (hl : other l = promptAnswer succeeds) :
    Mimics (promptOutcomes answer) (promptOutcomes other) k l := by
  rintro xs h r h₁ xs' h' ⟨rfl, rfl⟩ -
  refine ⟨_, h', ⟨rfl, rfl⟩, ?_⟩
  rw [hk, hl]
  cases succeeds with
  | true => exact .value (.of_scalar (by simp))
  | false => exact .failed _

/-- The handlers of both ends: one that succeeds and one that fails. -/
def promptHandlers : Handlers Bool :=
  ⟨[("yes", true), ("no", false)]⟩

/-- The calls of a method that neither end has, of one that succeeds, and of one that fails. -/
def threeCalls : List Message :=
  [.call ⟨1⟩ (.method "ping") ⟨.null, []⟩, .call ⟨2⟩ (.method "yes") ⟨.ref 0, [.list []]⟩,
    .call ⟨3⟩ (.method "no") ⟨.ref 0, [.list []]⟩]

/-- What a side answers to them. -/
def threeAnswers (side : String) : List Message :=
  [.fail ⟨1⟩ (noHandler side (.method "ping")), .reply ⟨2⟩ ⟨.null, []⟩, .fail ⟨3⟩ ⟨"E", "no"⟩]

/-- The host that has sent these answers and has these calls before it. -/
def hearing (answers calls : List Message) (h : Heap) : Network Heap Bool Bool Unit Unit :=
  ⟨h, #[⟨{ (HostEndpoint.new "host" : HostEndpoint Bool) with handlers := promptHandlers },
    ⟨⟨answers, true, true⟩, ⟨calls, true, true⟩⟩, none⟩], [], [], [], 0⟩

/-- The peer calls a method that neither end has, one that succeeds, and one that fails. The first
call leaves both ends as they were. -/
theorem inbound_calls_answered_once_ping :
    ∃ (w w₁ w₃ : WorkerSide Heap Bool Unit) (taken : List (Inquiry (Bool ⊕ Function)))
      (y y₁ y₃ : Network Heap Bool Bool Unit Unit) (taken' : List (Inquiry Bool)),
      (w₁.thread = w.thread ∧ w₁.state = w.state ∧ taken.map (·.id) = [⟨1⟩, ⟨2⟩, ⟨3⟩] ∧
        WorkerSide.Attends (promptPrograms.worker 0) w₃ taken (threeAnswers "worker")) ∧
      (y.RunsNothing y₁ ∧ taken'.map (·.id) = [⟨1⟩, ⟨2⟩, ⟨3⟩] ∧
        Network.Attends (promptPrograms.host 0) 0 y₃ taken' (threeAnswers "host")) ∧
      List.Forall₂ (Message.Alike "host" "worker") (threeAnswers "host")
        (threeAnswers "worker") := by
  obtain ⟨hworker, hworkerRefused, hhost, hhostRefused, halike⟩ :=
    @inbound_calls_answered_once Heap Bool Bool Unit Unit _ (promptPrograms.worker 0)
      promptPrograms "worker" .empty 0
  let e : HostEndpoint Bool :=
    { (HostEndpoint.new "host" : HostEndpoint Bool) with handlers := promptHandlers }
  let e' : WorkerEndpoint Bool :=
    { (WorkerEndpoint.new "worker" : WorkerEndpoint Bool) with handlers := promptHandlers }
  -- a worker that serves hears them
  let w : WorkerSide Heap Bool Unit :=
    ⟨⟨e', [], .serving⟩, ⟨⟨threeCalls, true, true⟩, .new⟩, .empty⟩
  have hnew : WorkerSide.Exchange (promptPrograms.worker 0) "worker" .empty
      (⟨⟨.new "worker", [], .idle⟩, .new, .empty⟩ : WorkerSide Heap Bool Unit) [] [] := .new
  have hyes := hnew.step
    (.manage (.register (show WorkerEndpoint.register _ "yes" true = _ from rfl)))
  have hno := hyes.step
    (.manage (.register (show WorkerEndpoint.register _ "no" false = _ from rfl)))
  have hserving := hno.step (.serve rfl)
  have hcalled : WorkerSide.Exchange (promptPrograms.worker 0) "worker" .empty w [] [] :=
    ((hserving.peer (.send rfl)).peer (.send rfl)).peer (.send rfl)
  have hmove : WorkerSide.ThreadStep (promptPrograms.worker 0) w (_ : List (Heard Unit Bool)) _ :=
    .move rfl
  have hmoved := ((hcalled.step hmove).step (.move rfl)).step (.move rfl)
  -- a host hears them on its first channel
  let y (n : ℕ) : Heap → Network Heap Bool Bool Unit Unit :=
    hearing ((threeAnswers "host").take n) (threeCalls.drop n)
  let h₂ : Heap := (Heap.empty.newList []).2
  have hidle : Network.Exchange promptPrograms 0 (y 0 .empty) [] [] := .start rfl
  have hfirst : Network.Acts promptPrograms 0 (y 0 .empty) _ (y 1 .empty) := .dispatch 0 rfl
  have hsecond : Network.Acts promptPrograms 0 (y 1 .empty) _ (y 2 h₂) := .dispatch 0 rfl
  have hthird : Network.Acts promptPrograms 0 (y 2 h₂) _ (y 3 (h₂.newList []).2) :=
    .dispatch 0 rfl
  obtain ⟨hthread, hstate⟩ := hworkerRefused _ _ _ _ hmove (.head _) (.inl rfl)
  refine ⟨w, _, _, _, _, _, _, _, ⟨hthread, hstate, rfl, hworker _ _ _ hmoved⟩,
    ⟨hhostRefused _ _ _ _ hfirst (.head _) (.inl rfl), rfl,
      hhost _ _ _ (((hidle.act hfirst).act hsecond).act hthird)⟩, ?alike⟩
  case alike =>
    let outcomes : Outcomes Bool := promptOutcomes promptAnswer
    let outcomes' : Outcomes (Bool ⊕ Function) :=
      promptOutcomes (Sum.elim promptAnswer fun _ => .ok .null)
    have htables : SameTables outcomes outcomes' e e' := by
      refine ⟨fun name => ?_, (SameTables.new "host" "worker").handles⟩
      have hsame : e.handlers.get? name = e'.handlers.get? name := rfl
      rw [← hsame]
      cases e.handlers.get? name with
      | none => exact .none
      | some succeeds =>
        exact .some ⟨promptOutcomes_mimics succeeds rfl rfl, promptOutcomes_mimics succeeds rfl rfl⟩
    have hsingle : SingleValued outcomes' := singleValued_promptOutcomes _
    refine .cons ?ping (.cons ?yes (.cons ?no .nil))
    case ping =>
      exact (halike outcomes outcomes' e e' htables _ _ ⟨.null, []⟩ .empty .empty).2.2 hsingle _ _
        (.noHandler rfl) (.noHandler rfl)
    case yes =>
      exact (halike outcomes outcomes' e e' htables _ (.method "yes") ⟨.ref 0, [.list []]⟩ .empty
        .empty).2.2 hsingle _ _ (.replied rfl rfl ⟨rfl, rfl⟩ rfl) (.replied rfl rfl ⟨rfl, rfl⟩ rfl)
    case no =>
      exact (halike outcomes outcomes' e e' htables _ (.method "no") ⟨.ref 0, [.list []]⟩ .empty
        .empty).2.2 hsingle _ _ (.failed rfl rfl ⟨rfl, rfl⟩) (.failed rfl rfl ⟨rfl, rfl⟩)

end WorkerHost
