import WorkerHost.Channel.Network
import WorkerHost.Proofs.Channel.Opened

/-!
# A network is a schedule

A `Pair` leaves open what happens next; a `Network` makes one step after another in an order of its
own, with many channels that share a state and tasks that wait across them. Seen at one channel,
whatever the network does is a run of the pair there: what its other channels and tasks do is work
on the state. So what holds along every run of a pair holds of every channel of a running network.

`Network.Follows` is this relation, and every operation of the network keeps it. `hand` are the
tasks that serve calls of the worker and have been taken off the list, or are not on it yet.

* `Network.Follows.runStep`, `Network.Follows.continueTaken`: a task runs until it waits or ends;
* `Network.Follows.dispatch`, `Network.Follows.advance`: a message is taken, a thread moves;
* `Network.Follows.settle`: all that happens until nothing more is possible.
-/

namespace WorkerHost
namespace Network
variable {σ HH WH β ρ : Type} {y y' : Network σ HH WH β ρ} {i j : ℕ}
  {hand : List (CallId × ServingStage)}

/-- The tasks of the host that run handlers for a channel. -/
def servedAt (y : Network σ HH WH β ρ) (i : ℕ) : List (CallId × ServingStage) :=
  (y.serving.filter (·.channel = i)).map fun t => (t.id, .running)

/-- The channel of that number, with the state and the calls that its tasks serve, is the pair. What
the network calls it sends at once. -/
structure Shows (y : Network σ HH WH β ρ) (i : ℕ) (hand : List (CallId × ServingStage))
    (c : Pair σ HH WH β) : Prop where
  channel : y.channels[i]? = some ⟨c.host, c.worker.link, some c.worker.thread⟩
  state : y.state = c.worker.state
  outgoing : c.outgoing = []
  tasks : c.tasks.Perm (hand ++ y.servedAt i)

/-- The pair has the channel that the network has. -/
lemma Shows.eq_of_channel {c : Pair σ HH WH β} {d : Channel σ HH WH β} (hc : y.Shows i hand c)
    (hd : y.channels[i]? = some d) : d = ⟨c.host, c.worker.link, some c.worker.thread⟩ :=
  Option.some.inj (hd.symm.trans hc.channel)

lemma getElem?_setChannel (y : Network σ HH WH β ρ) {c d : Channel σ HH WH β}
    (hc : y.channels[i]? = some c) : (y.setChannel i d).channels[i]? = some d := by
  obtain ⟨hi, -⟩ := Array.getElem?_eq_some_iff.1 hc
  exact Array.getElem?_setIfInBounds_self_of_lt hi

lemma getElem?_setChannel_of_ne (y : Network σ HH WH β ρ) (hne : j ≠ i)
    (d : Channel σ HH WH β) : (y.setChannel j d).channels[i]? = y.channels[i]? :=
  Array.getElem?_setIfInBounds_ne hne

/-- What is the same of a channel after it has changed is the same of all channels. -/
lemma map_setChannel {γ : Type} {f : Channel σ HH WH β → γ} {c d : Channel σ HH WH β}
    (hc : y.channels[i]? = some c) (hf : f d = f c) :
    (y.setChannel i d).channels.map f = y.channels.map f := by
  refine Array.ext_getElem? fun j => ?_
  rw [Array.getElem?_map, Array.getElem?_map]
  by_cases hne : i = j
  · subst hne
    rw [y.getElem?_setChannel hc, hc, Option.map_some, Option.map_some, hf]
  · rw [y.getElem?_setChannel_of_ne hne d]

/-! ## Tasks that go on -/

/-- The task that is picked, and the others in their order. -/
lemma pick_eq_some {α γ : Type} {f : α → Option γ} {l rest : List α} {x : γ}
    (h : pick f l = some (x, rest)) :
    ∃ before a after, l = before ++ a :: after ∧ rest = before ++ after ∧ f a = some x := by
  induction l generalizing rest with
  | nil => cases h
  | cons a l ih =>
    unfold pick at h
    cases ha : f a with
    | some x' =>
      simp only [ha, Option.some.injEq, Prod.mk.injEq] at h
      obtain ⟨rfl, rfl⟩ := h
      exact ⟨[], a, l, rfl, rfl, ha⟩
    | none =>
      simp only [ha, Option.map_eq_some_iff] at h
      obtain ⟨⟨x', rest'⟩, hpick, heq⟩ := h
      simp only [Prod.mk.injEq] at heq
      obtain ⟨rfl, rfl⟩ := heq
      obtain ⟨before, b, after, rfl, rfl, hb⟩ := ih hpick
      exact ⟨a :: before, b, after, rfl, rfl, hb⟩

variable [HasHeap σ]

/-- The outcome of a call goes to the task that waits for it, if there is one. -/
lemma resolve_cases (y : Network σ HH WH β ρ) (channel : ℕ) (id : CallId) (outcome : CallOutcome) :
    (∃ before t after resume, y.serving = before ++ t :: after ∧
      t.waiting = .call channel id resume ∧ y.resolve channel id outcome =
        continueServing { y with serving := before ++ after } t.channel t.id
          (resume outcome y.state)) ∨
    (∃ before t after resume, y.running = before ++ t :: after ∧
      t.waiting = .call channel id resume ∧ y.resolve channel id outcome =
        continueRunning { y with running := before ++ after } t.ticket (resume outcome y.state)) ∨
    y.resolve channel id outcome = y := by
  unfold Network.resolve
  split
  · next hpick =>
    obtain ⟨before, a, after, hserving, rfl, ha⟩ := pick_eq_some hpick
    cases hwaiting : a.waiting with
    | call c n go =>
      simp only [hwaiting] at ha
      split at ha
      · next hcall =>
        obtain ⟨rfl, rfl⟩ := hcall
        cases ha
        exact .inl ⟨before, _, after, _, hserving, hwaiting, rfl⟩
      · cases ha
    | line | never => simp only [hwaiting, reduceCtorEq] at ha
  · split
    · next hpick =>
      obtain ⟨before, a, after, hrunning, rfl, ha⟩ := pick_eq_some hpick
      cases hwaiting : a.waiting with
      | call c n go =>
        simp only [hwaiting] at ha
        split at ha
        · next hcall =>
          obtain ⟨rfl, rfl⟩ := hcall
          cases ha
          exact .inr (.inl ⟨before, _, after, _, hrunning, hwaiting, rfl⟩)
        · cases ha
      | line | never => simp only [hwaiting, reduceCtorEq] at ha
    · exact .inr (.inr rfl)

/-- A read that has ended wakes the task that waits for it. -/
lemma wake_cases {qs : Programs σ HH WH} (hwake : y.wake? qs = some y') :
    (∃ before t after session read line resume, y.serving = before ++ t :: after ∧
      qs.lineOf y.state session read = some line ∧ t.waiting = .line session read resume ∧
      y' = continueServing { y with serving := before ++ after } t.channel t.id
        (resume line y.state)) ∨
    ∃ before t after session read line resume, y.running = before ++ t :: after ∧
      qs.lineOf y.state session read = some line ∧ t.waiting = .line session read resume ∧
      y' = continueRunning { y with running := before ++ after } t.ticket
        (resume line y.state) := by
  unfold wake? at hwake
  split at hwake
  · next hpick =>
    cases hwake
    obtain ⟨before, a, after, hserving, rfl, ha⟩ := pick_eq_some hpick
    cases hwaiting : a.waiting with
    | line session read go =>
      simp only [hwaiting] at ha
      obtain ⟨line, hline, heq⟩ := Option.map_eq_some_iff.1 ha
      cases heq
      exact .inl ⟨before, _, after, session, read, line, go, hserving, hline, hwaiting, rfl⟩
    | call | never => simp only [hwaiting, reduceCtorEq] at ha
  · split at hwake
    · next hpick =>
      cases hwake
      obtain ⟨before, a, after, hrunning, rfl, ha⟩ := pick_eq_some hpick
      cases hwaiting : a.waiting with
      | line session read go =>
        simp only [hwaiting] at ha
        obtain ⟨line, hline, heq⟩ := Option.map_eq_some_iff.1 ha
        cases heq
        exact .inr ⟨before, _, after, session, read, line, go, hrunning, hline, hwaiting, rfl⟩
      | call | never => simp only [hwaiting, reduceCtorEq] at ha
    · cases hwake

/-- What has happened at the channel is a run of its pair, which goes on from some log. -/
def Follows (ps : WorkerPrograms σ WH) (name : String) (state : σ) (log : List (Event HH WH))
    (i : ℕ) (hand : List (CallId × ServingStage)) (y : Network σ HH WH β ρ) : Prop :=
  ∃ c more, Pair.Run ps name state c (log ++ more) ∧ y.Shows i hand c

section
variable {ps : WorkerPrograms σ WH} {name : String} {state : σ} {log : List (Event HH WH)}

/-- A step of the pair. -/
lemma Follows.of_step {c c' : Pair σ HH WH β} {more evs : List (Event HH WH)}
    (run : Pair.Run ps name state c (log ++ more)) (step : Pair.Step ps c evs c')
    (h : y.Shows i hand c') : Follows ps name state log i hand y := by
  refine ⟨c', more ++ evs, ?_, h⟩
  rw [← List.append_assoc]
  exact run.step step

/-- What leaves channel, state and tasks alone is none. -/
lemma Follows.congr (h : Follows ps name state log i hand y)
    (hchannel : y'.channels[i]? = y.channels[i]?) (hstate : y'.state = y.state)
    (hserving : y'.servedAt i = y.servedAt i) : Follows ps name state log i hand y' := by
  obtain ⟨c, more, run, hc⟩ := h
  exact ⟨c, more, run, hchannel.trans hc.channel, hstate.trans hc.state, hc.outgoing,
    hserving ▸ hc.tasks⟩

lemma Follows.work (h : Follows ps name state log i hand y) (s : σ) :
    Follows ps name state log i hand { y with state := s } := by
  obtain ⟨c, more, run, hc⟩ := h
  exact .of_step run (.work s) ⟨hc.channel, rfl, hc.outgoing, hc.tasks⟩

/-- What goes on at another channel leaves this one alone. -/
lemma Follows.setChannel_of_ne (h : Follows ps name state log i hand y) (hne : j ≠ i)
    (d : Channel σ HH WH β) : Follows ps name state log i hand (y.setChannel j d) :=
  h.congr (y.getElem?_setChannel_of_ne hne d) rfl rfl

/-! ## Tasks -/

/-- A task runs until it waits or ends: its calls at this channel are calls of the host. -/
lemma Follows.runStep {α : Type} (step : HostStep σ α)
    (h : Follows ps name state log i hand y) :
    Follows ps name state log i hand (y.runStep step).2 := by
  induction step generalizing y with
  | done a s => exact h.work s
  | ask q s resume ih =>
    have hs := h.work s
    cases q with
    | line session read => exact hs
    | never => exact hs
    | sleep millis => exact ih () s h
    | call j target args =>
      unfold Network.runStep
      dsimp only
      cases hj : y.channels[j]? with
      | none => exact ih _ s hs
      | some d =>
        dsimp only
        by_cases hne : j = i
        · subst hne
          obtain ⟨c, more, run, hc⟩ := hs
          obtain rfl := hc.eq_of_channel hj
          obtain rfl : s = c.worker.state := hc.state
          have hlink := run.opened.link
          rcases c.host.startCall_open hlink (HasHeap.heap c.worker.state) target args with
            ⟨args', hpack, hstart⟩ | ⟨err, hstart⟩
          · rw [hstart]
            have hcalled := run.callAtOnce target hpack
            rw [List.append_assoc] at hcalled
            exact ⟨_, _, hcalled, getElem?_setChannel _ hj, rfl, hc.outgoing, hc.tasks⟩
          · -- a call that can not be packed leaves nothing behind, and the task is told at once
            rw [hstart]
            exact ih _ _ ⟨c, more, run, getElem?_setChannel _ hj, rfl, hc.outgoing, hc.tasks⟩
        · generalize d.host.startCall d.link (HasHeap.heap s) target args = r
          obtain ⟨err | id, host, link⟩ := r
          · exact ih _ s (hs.setChannel_of_ne hne _)
          · exact hs.setChannel_of_ne hne _

/-- A task that serves a call of the channel ends with the answer, or it waits. -/
lemma Follows.continueServing_self {id : CallId}
    (h : Follows ps name state log i ((id, .running) :: hand) y)
    (step : HostStep σ (Except RemoteError Value)) :
    Follows ps name state log i hand (y.continueServing i id step) := by
  have hran := h.runStep step
  unfold Network.continueServing
  generalize y.runStep step = r at hran
  obtain ⟨outcome | waiting, y'⟩ := r
  · obtain ⟨c, more, run, hc⟩ := hran
    -- the task is among those that serve the channel, so its end is a step of the pair
    obtain ⟨before, after, htasks⟩ := List.append_of_mem (hc.tasks.symm.subset List.mem_cons_self)
    have hrest : (before ++ after).Perm (hand ++ y'.servedAt i) := by
      have hperm := hc.tasks
      rw [htasks] at hperm
      exact (List.perm_middle.symm.trans hperm).cons_inv
    dsimp only
    rw [hc.channel, hc.state]
    exact .of_step run (.finish htasks outcome)
      ⟨getElem?_setChannel _ hc.channel, hc.state, hc.outgoing, hrest⟩
  · -- a task that waits goes to the end of the list, which is no step
    obtain ⟨c, more, run, hc⟩ := hran
    refine ⟨c, more, run, hc.channel, hc.state, hc.outgoing, ?_⟩
    have hserved : servedAt { y' with serving := y'.serving ++ [⟨i, id, waiting⟩] } i =
        y'.servedAt i ++ [(id, .running)] := by
      simp [servedAt]
    rw [hserved, ← List.append_assoc]
    exact hc.tasks.trans (List.perm_append_singleton _ (hand ++ y'.servedAt i)).symm

lemma Follows.continueServing_of_ne (h : Follows ps name state log i hand y) (hne : j ≠ i)
    (id : CallId) (step : HostStep σ (Except RemoteError Value)) :
    Follows ps name state log i hand (y.continueServing j id step) := by
  have hran := h.runStep step
  unfold Network.continueServing
  generalize y.runStep step = r at hran
  obtain ⟨outcome | waiting, y'⟩ := r
  · dsimp only
    cases y'.channels[j]? with
    | none => exact hran
    | some d => exact hran.setChannel_of_ne hne _
  · refine hran.congr rfl rfl ?_
    simp [servedAt, hne]

lemma Follows.continueRunning (h : Follows ps name state log i hand y) (ticket : ℕ)
    (step : HostStep σ ρ) : Follows ps name state log i hand (y.continueRunning ticket step) := by
  have hran := h.runStep step
  unfold Network.continueRunning
  generalize y.runStep step = r at hran
  obtain ⟨result | waiting, y'⟩ := r
  · exact hran.congr rfl rfl rfl
  · exact hran.congr rfl rfl rfl

/-- A task that was waiting goes on, at whatever channel it serves. -/
lemma Follows.continueTaken {before after : List (Serving σ)} {t : Serving σ}
    (h : Follows ps name state log i hand y) (hserving : y.serving = before ++ t :: after)
    (step : HostStep σ (Except RemoteError Value)) :
    Follows ps name state log i hand
      (continueServing { y with serving := before ++ after } t.channel t.id step) := by
  by_cases hne : t.channel = i
  · have htaken : Follows ps name state log i ((t.id, .running) :: hand)
        { y with serving := before ++ after } := by
      obtain ⟨c, more, run, hc⟩ := h
      refine ⟨c, more, run, hc.channel, hc.state, hc.outgoing, hc.tasks.trans ?_⟩
      simp only [servedAt, hserving, List.filter_append, List.filter_cons, hne, decide_true,
        if_true, List.map_append, List.map_cons, List.cons_append, ← List.append_assoc]
      exact List.perm_middle
    rw [hne]
    exact htaken.continueServing_self step
  · refine Follows.continueServing_of_ne ?_ hne _ step
    refine h.congr rfl rfl ?_
    simp [servedAt, hserving, hne]

/-- The task that waits for a call goes on with its outcome. -/
lemma Follows.resolve (h : Follows ps name state log i hand y) (channel : ℕ) (id : CallId)
    (outcome : CallOutcome) :
    Follows ps name state log i hand (y.resolve channel id outcome) := by
  rcases y.resolve_cases channel id outcome with
    ⟨before, t, after, resume, hserving, -, heq⟩ | ⟨before, t, after, resume, -, -, heq⟩ | heq
  · rw [heq]
    exact h.continueTaken hserving _
  · rw [heq]
    refine Follows.continueRunning ?_ _ _
    exact h.congr rfl rfl rfl
  · rw [heq]
    exact h

lemma Follows.reject (h : Follows ps name state log i hand y) (channel : ℕ)
    (ids : List CallId) : Follows ps name state log i hand (y.reject channel ids) := by
  unfold Network.reject
  induction ids generalizing y with
  | nil => exact h
  | cons id ids ih => exact ih (h.resolve channel id _)

/-- A task whose read has ended goes on. -/
lemma Follows.wake {qs : Programs σ HH WH} (h : Follows ps name state log i hand y)
    (hwake : y.wake? qs = some y') : Follows ps name state log i hand y' := by
  obtain ⟨before, t, after, _, _, line, resume, hserving, -, -, rfl⟩ |
    ⟨before, t, after, _, _, line, resume, -, -, -, rfl⟩ := wake_cases hwake
  · exact h.continueTaken hserving _
  · refine Follows.continueRunning ?_ _ _
    exact h.congr rfl rfl rfl

/-! ## Messages and threads -/

lemma Follows.serve_of_ne {qs : Programs σ HH WH} (h : Follows ps name state log i hand y)
    (hne : j ≠ i) (d : Channel σ HH WH β) (id : CallId) (target : Target) (args : Wire) :
    Follows ps name state log i hand (y.serve qs j d id target args) := by
  unfold Network.serve
  split
  · exact h.setChannel_of_ne hne _
  · exact (h.work _).continueServing_of_ne hne _ _

/-- What the host takes off the queue of the channel, the pair takes too. -/
lemma Shows.receive {c : Pair σ HH WH β} {m : Message} {q : Queue} {event : HostEvent}
    {host : HostEndpoint HH} {hp : Heap} (hc : y.Shows i hand c)
    (hreceive : c.worker.link.toHost.receive = .message m q)
    (hdispatch : c.host.dispatch (HasHeap.heap y.state) m = (event, host, hp)) :
    ∃ c', c.receive? = some (event, c') ∧
      Shows { y.setChannel i ⟨host, { c.worker.link with toHost := q }, some c.worker.thread⟩ with
        state := HasHeap.setHeap hp y.state } i hand c' := by
  rw [hc.state] at hdispatch ⊢
  have hpair : c.receive? = some (event, { c with
      host := host
      worker := { c.worker with
        link := { c.worker.link with toHost := q }
        state := HasHeap.setHeap hp c.worker.state } }) := by
    unfold Pair.receive?
    rw [hreceive]
    simp only [hdispatch]
  exact ⟨_, hpair, getElem?_setChannel _ hc.channel, rfl, hc.outgoing, hc.tasks⟩

/-- A call of the worker that a task of the host has is refused at once, or served. -/
lemma Follows.serve_self {qs : Programs σ HH WH} {id : CallId} {target : Target} {args : Wire}
    {d : Channel σ HH WH β}
    (h : Follows ps name state log i ((id, .taken target args) :: hand) y)
    (hd : y.channels[i]? = some d) :
    Follows ps name state log i hand (y.serve qs i d id target args) := by
  obtain ⟨c, more, run, hc⟩ := h
  obtain rfl := hc.eq_of_channel hd
  obtain ⟨before, after, htasks⟩ := List.append_of_mem (hc.tasks.symm.subset List.mem_cons_self)
  have hrest : (before ++ after).Perm (hand ++ y.servedAt i) := by
    have hperm := hc.tasks
    rw [htasks] at hperm
    exact (List.perm_middle.symm.trans hperm).cons_inv
  unfold Network.serve
  rw [hc.state]
  cases hin : Inbound.of "host" (HasHeap.heap c.worker.state) (c.host.handlerFor target) target
      args with
  | refused e =>
    have hrefused := run.step (.refuse htasks hin)
    rw [List.append_assoc] at hrefused
    exact .of_step hrefused (.fail rfl)
      ⟨getElem?_setChannel _ hc.channel, hc.state, hc.outgoing, hrest⟩
  | run handler args' hp =>
    refine Follows.continueServing_self ?_ _
    exact .of_step run (.accept htasks hin)
      ⟨hc.channel, rfl, hc.outgoing, List.perm_middle.trans (hrest.cons _)⟩

/-- The host takes a message of some channel. -/
lemma Follows.dispatch {qs : Programs σ HH WH} (h : Follows ps name state log i hand y)
    (hdispatch : y.dispatch? qs j = some y') : Follows ps name state log i hand y' := by
  obtain ⟨d, hd, hdispatch⟩ := Option.bind_eq_some_iff.1 hdispatch
  obtain ⟨-, -, hdispatch⟩ := Option.bind_eq_some_iff.1 hdispatch
  by_cases hne : j = i
  · subst hne
    obtain ⟨c, more, run, hc⟩ := h
    obtain rfl := hc.eq_of_channel hd
    cases hreceive : c.worker.link.toHost.receive with
    | waiting => simp [hreceive] at hdispatch
    | ended =>
      -- the end of the queue is not reached while the worker's end is there
      unfold Queue.receive at hreceive
      rw [run.opened.link.toHost_sending] at hreceive
      split at hreceive <;> cases hreceive
    | message m q =>
      simp only [hreceive] at hdispatch
      generalize hevent : c.host.dispatch (HasHeap.heap y.state) m = r at hdispatch
      obtain ⟨event, host, hp⟩ := r
      obtain ⟨c', hreceive', hc'⟩ := hc.receive hreceive hevent
      cases event with
      | resolved id outcome =>
        cases hdispatch
        exact (Follows.of_step run (.resolve hreceive') hc').resolve _ _ _
      | unknown =>
        cases hdispatch
        exact .of_step run (.ignore hreceive') hc'
      | inbound id target args =>
        cases hdispatch
        have htasks : (c'.tasks ++ [(id, ServingStage.taken target args)]).Perm
            ((id, ServingStage.taken target args) :: hand ++ servedAt _ j) :=
          (List.perm_append_singleton _ _).trans (hc'.tasks.cons _)
        have htaken := Follows.of_step run (.take hreceive')
          ⟨hc'.channel, hc'.state, hc'.outgoing, htasks⟩
        exact htaken.serve_self (getElem?_setChannel _ hc.channel)
  · cases hreceive : d.link.toHost.receive with
    | waiting => simp [hreceive] at hdispatch
    | ended =>
      simp only [hreceive] at hdispatch
      cases hdispatch
      exact (h.setChannel_of_ne hne _).reject _ _
    | message m q =>
      simp only [hreceive] at hdispatch
      generalize d.host.dispatch (HasHeap.heap y.state) m = r at hdispatch
      obtain ⟨event, host, hp⟩ := r
      have hchannel := h.setChannel_of_ne hne
        { d with host := host, link := { d.link with toHost := q } }
      have hother := hchannel.work (HasHeap.setHeap hp y.state)
      cases event with
      | resolved id outcome =>
        cases hdispatch
        exact hother.resolve _ _ _
      | unknown =>
        cases hdispatch
        exact hother
      | inbound id target args =>
        cases hdispatch
        exact hother.serve_of_ne hne _ _ _ _

/-- The thread of some channel moves. -/
lemma Follows.advance {qs : Programs σ HH WH} (h : Follows (qs.worker i) name state log i hand y)
    (hadvance : y.advance? qs j = some y') :
    Follows (qs.worker i) name state log i hand y' := by
  obtain ⟨d, hd, hadvance⟩ := Option.bind_eq_some_iff.1 hadvance
  obtain ⟨thread, hthread, hadvance⟩ := Option.bind_eq_some_iff.1 hadvance
  obtain ⟨w, hmove, hadvance⟩ := Option.bind_eq_some_iff.1 hadvance
  cases hadvance
  by_cases hne : j = i
  · subst hne
    obtain ⟨c, more, run, hc⟩ := h
    obtain rfl := hc.eq_of_channel hd
    cases hthread
    rw [hc.state] at hmove
    exact .of_step run (.move hmove) ⟨getElem?_setChannel _ hc.channel, rfl, hc.outgoing, hc.tasks⟩
  · exact (h.setChannel_of_ne hne _).work _

/-! ## Settling -/

/-- Whatever the network does next. -/
lemma Follows.next {qs : Programs σ HH WH} (h : Follows (qs.worker i) name state log i hand y)
    (hstep : y.step? qs = some y') : Follows (qs.worker i) name state log i hand y' := by
  unfold step? at hstep
  rcases (Option.orElse_eq_some _ _ _).1 hstep with hwake | ⟨-, hstep⟩
  · exact h.wake hwake
  · rcases (Option.orElse_eq_some _ _ _).1 hstep with hdispatch | ⟨-, hadvance⟩
    · obtain ⟨j, -, hj⟩ := List.exists_of_findSome?_eq_some hdispatch
      exact h.dispatch hj
    · obtain ⟨j, -, hj⟩ := List.exists_of_findSome?_eq_some hadvance
      exact h.advance hj

lemma Follows.settle {qs : Programs σ HH WH} (fuel : ℕ)
    (h : Follows (qs.worker i) name state log i hand y) :
    Follows (qs.worker i) name state log i hand (y.settle qs fuel) := by
  induction fuel generalizing y with
  | zero => exact h
  | succ fuel ih =>
    unfold Network.settle
    cases hstep : y.step? qs with
    | none => exact h
    | some y' => exact ih (h.next hstep)

/-- Where a channel of a network has come to by a run of its two ends, with no task taken off the
list, the network settles by going on with that run. -/
theorem settle_run {qs : Programs σ HH WH} {c : Pair σ HH WH β}
    (run : Pair.Run (qs.worker i) name state c log) (hc : y.Shows i [] c) (fuel : ℕ) :
    ∃ c' more, Pair.Run (qs.worker i) name state c' (log ++ more) ∧
      (y.settle qs fuel).Shows i [] c' := by
  refine Follows.settle fuel ⟨c, [], ?_, hc⟩
  rw [List.append_nil]
  exact run

end
end Network
end WorkerHost
