import WorkerHost.Proofs.Channel.Answers
import WorkerHost.Proofs.Channel.Caller
import WorkerHost.Proofs.Channel.Network
import WorkerHost.Proofs.Task

/-!
# What a network leaves alone

If no handler and no task that is under way changes what is seen of the state, then nothing that a
network does by itself changes it, and the host ends keep the methods and handles that they have,
`Network.Leaves.settle`. What others change while a computation waits is theirs: it is only asked to
leave alone what it finds, `Step.Leaves`.
-/

namespace WorkerHost

variable {σ HH WH β ρ V : Type} {view : σ → V} {v : V}

/-! ## Host ends -/

namespace HostEndpoint
variable {H : Type} (e : HostEndpoint H)

lemma handlerFor_startCall (link : Link) (h : Heap) (target : Target) (args : List Value) :
    (e.startCall link h target args).2.1.handlerFor = e.handlerFor := by
  unfold startCall
  cases packArgs h args with
  | error err => rfl
  | ok args =>
    dsimp only
    split
    · rfl
    · rfl

lemma handlerFor_dispatch (h : Heap) (m : Message) :
    (e.dispatch h m).2.1.handlerFor = e.handlerFor := by
  rcases e.dispatch_cases h m with
    ⟨-, id, target, args, heq⟩ | ⟨-, -, o, h', -, heq⟩ | ⟨-, -, h', heq⟩ <;> rw [heq]
  rfl

lemma handlerFor_close (link : Link) : (e.close link).2.1.handlerFor = e.handlerFor := by
  unfold close
  split
  · rfl
  · rfl

lemma handlerFor_finish (link : Link) : (e.finish link).2.1.handlerFor = e.handlerFor :=
  e.handlerFor_close link

end HostEndpoint

/-! ## Computations -/

/-- The computation changes nothing of what is seen, neither up to where it waits nor from there on,
whatever others have changed meanwhile. -/
def Step.Leaves {Q α : Type} {R : Q → Type} (view : σ → V) (v : V) : Step σ Q R α → Prop
  | .done _ s => view s = v
  | .ask _ s resume => view s = v ∧ ∀ r s', (resume r s').Leaves view (view s')

namespace Task
variable {Q α γ : Type} {R : Q → Type}

/-- From whatever state, the computation changes nothing of what is seen. -/
def Leaves (view : σ → V) (x : Task σ Q R α) : Prop :=
  ∀ s, (x s).Leaves view (view s)

lemma Leaves.bind {x : Task σ Q R α} {f : α → Task σ Q R γ} (hx : x.Leaves view)
    (hf : ∀ a, (f a).Leaves view) : (x >>= f).Leaves view := by
  intro s
  show ((x s).bind _).Leaves view (view s)
  have hstep := hx s
  generalize x s = step, view s = u at hstep
  induction step generalizing u with
  | done a s' =>
    obtain rfl : view s' = u := hstep
    exact hf a s'
  | ask q s' resume ih => exact ⟨hstep.1, fun r s₁ => ih r s₁ _ (hstep.2 r s₁)⟩

/-- That a computation changes nothing of what is seen, as a relation. -/
def leaves (view : σ → V) : MonadRel (Task σ Q R) (Task σ Q R) where
  rel x _ := x.Leaves view
  pure _ _ := rfl
  bind := .bind

lemma leaves_ask (q : Q) : (Task.ask (R := R) q).Leaves view :=
  fun _ => ⟨rfl, fun _ _ => rfl⟩

/-- A computation that asks nothing. -/
lemma leaves_of_done {x : Task σ Q R α} (h : ∀ s, ∃ a s', x s = .done a s' ∧ view s' = view s) :
    x.Leaves view := by
  intro s
  obtain ⟨a, s', hdone, hview⟩ := h s
  rw [hdone]
  exact hview

end Task

/-- Whatever the task waits for, it changes nothing when it goes on. -/
def Waiting.Leaves {α : Type} (view : σ → V) : Waiting σ α → Prop
  | .call _ _ resume => ∀ o s, (resume o s).Leaves view (view s)
  | .line _ _ resume => ∀ line s, (resume line s).Leaves view (view s)
  | .never => True

/-- No handler that can be called changes what is seen: none that a target names at a host end, and
none of the workers. -/
structure Programs.Leave [HasHeap σ] (ps : Programs σ HH WH) (view : σ → V)
    (named : Array (Target → Option HH)) : Prop where
  host : ∀ names ∈ named, ∀ target handler, names target = some handler →
    ∀ i args, (ps.host i handler args).Leaves view
  worker : ∀ i k args, ((ps.worker i).callable k args).Leaves view
  heap : ∀ s h, view (HasHeap.setHeap h s) = view s

/-! ## Threads -/

namespace WorkerSide
variable {w w' : WorkerSide σ WH β}

/-- This is seen of the state, and nothing that the thread has begun changes it. -/
structure Leaves (view : σ → V) (v : V) (w : WorkerSide σ WH β) : Prop where
  state : view w.state = v
  frames : ∀ f ∈ w.thread.frames, ∀ o s, (f.resume o s).Leaves view (view s)
  base : ∀ id resume, w.thread.base = .waiting id resume →
    ∀ o s, (resume o s).Leaves view (view s)

lemma Leaves.congr {u : V} (h : w.Leaves view v) (hframes : w'.thread.frames = w.thread.frames)
    (hbase : w'.thread.base = w.thread.base) (hview : view w'.state = u) : w'.Leaves view u :=
  ⟨hview, by rw [hframes]; exact h.frames, by rw [hbase]; exact h.base⟩

lemma Leaves.post (h : w.Leaves view v) (m : Message) : (w.post m).Leaves view v := by
  rcases post_cases w m with hm | hm <;> rw [hm]
  · exact h
  · exact h.congr rfl rfl h.state

variable [HasHeap σ]

/-- A computation ends, or it waits and changes nothing when it goes on. -/
lemma Leaves.runStep {α : Type} {step : WorkerStep σ α} (hstep : step.Leaves view v)
    (h : w.Leaves view v) : (w.runStep step).2.Leaves view v ∧
      ∀ b, (w.runStep step).1 = .inr b → ∀ o s, (b.resume o s).Leaves view (view s) := by
  induction step generalizing w with
  | done a s => exact ⟨h.congr rfl rfl hstep, nofun⟩
  | ask call s resume ih =>
    obtain ⟨hs, hresume⟩ := hstep
    unfold WorkerSide.runStep
    rcases startCall_cases { w with state := s } call with
      ⟨err, n, hstart, -⟩ | ⟨args, -, -, -, hstart⟩
    · rw [hstart]
      exact ih (.error err) s (hs ▸ hresume _ s) (h.congr rfl rfl hs)
    · rw [hstart]
      exact ⟨h.congr rfl rfl hs, fun b hb => by cases hb; exact hresume⟩

lemma Leaves.runHandler {step : WorkerStep σ (Except RemoteError Value)}
    (hstep : step.Leaves view v) (h : w.Leaves view v) (answering : CallId) :
    (runHandler answering w step).Leaves view v := by
  obtain ⟨hran, hwaits⟩ := h.runStep hstep
  unfold WorkerSide.runHandler
  generalize w.runStep step = r at hran hwaits
  obtain ⟨outcome | b, w'⟩ := r
  · exact hran.post _
  · refine ⟨hran.state, fun f hf => ?_, hran.base⟩
    rcases List.mem_cons.1 hf with rfl | hf
    · exact hwaits b rfl
    · exact hran.frames f hf

lemma Leaves.runBase {step : WorkerStep σ β} (hstep : step.Leaves view v) (h : w.Leaves view v) :
    (w.runBase step).Leaves view v := by
  obtain ⟨hran, hwaits⟩ := h.runStep hstep
  unfold WorkerSide.runBase
  generalize w.runStep step = r at hran hwaits
  obtain ⟨b | b, w'⟩ := r
  · exact ⟨hran.state, hran.frames, nofun⟩
  · refine ⟨hran.state, hran.frames, fun id resume hwaiting => ?_⟩
    obtain ⟨-, rfl⟩ := Base.waiting.inj hwaiting
    exact hwaits b rfl

omit [HasHeap σ] in
/-- A thread that has begun nothing. -/
lemma Leaves.idle {e : WorkerEndpoint WH} {l : Link} {s : σ} (hs : view s = v) :
    Leaves view v (⟨⟨e, [], .idle⟩, l, s⟩ : WorkerSide σ WH β) :=
  ⟨hs, List.forall_mem_nil _, nofun⟩

/-- A thread begins a computation of its own. -/
lemma Leaves.start {task : WorkerTask σ β} (h : w.Leaves view v) (htask : task.Leaves view) :
    (w.start task).Leaves view v :=
  .runBase (h.state ▸ htask w.state) h

omit [HasHeap σ] in
lemma Leaves.popTop (h : w.Leaves view v) : w.popTop.Leaves view v := by
  unfold WorkerSide.popTop
  split
  · next f rest hframes =>
    exact ⟨h.state, fun g hg => h.frames g (hframes ▸ List.mem_cons_of_mem f hg), h.base⟩
  · split
    · exact ⟨h.state, h.frames, nofun⟩
    · exact h

/-- The computation on top goes on. -/
lemma Leaves.resumeTop (h : w.Leaves view v) (o : CallOutcome) :
    (w.resumeTop o).Leaves view v := by
  have hpop := h.popTop
  have hv := h.state
  rcases resume_cases Unit w o with
    ⟨f, rest, hframes, heq, -⟩ | ⟨id, resume, -, hbase, heq, -⟩ | ⟨-, heq, -⟩
  · rw [heq]
    exact hpop.runHandler (hv ▸ h.frames f (hframes ▸ List.mem_cons_self) o w.state) _
  · rw [heq]
    exact hpop.runBase (hv ▸ h.base id resume hbase o w.state)
  · rw [heq]
    exact h

lemma Leaves.disconnect (h : w.Leaves view v) : w.disconnect.Leaves view v := by
  have hclosed : w.hungUp.Leaves view v := h.congr rfl rfl h.state
  rcases disconnect_cases Unit w with ⟨id, rest, -, heq, -⟩ | ⟨-, heq, -⟩
  · rw [heq]
    exact hclosed.resumeTop _
  · rw [heq]
    exact ⟨hclosed.state, hclosed.frames, nofun⟩

section
variable (hheap : ∀ s h, view (HasHeap.setHeap h s) = view s)
include hheap

lemma Leaves.takeReply (h : w.Leaves view v) (m : Message) : (w.takeReply m).Leaves view v := by
  have hstate (h' : Heap) : view (HasHeap.setHeap h' w.state) = v := (hheap _ _).trans h.state
  rcases reply_cases Unit w m with
    ⟨o, h', -, -, heq, -⟩ | ⟨o, h', -, -, heq, -⟩ | ⟨-, heq, -⟩
  · have hread : Leaves view v { w with state := HasHeap.setHeap h' w.state } :=
      h.congr rfl rfl (hstate h')
    rw [heq]
    exact hread.resumeTop o
  · rw [heq]
    exact h.congr rfl rfl (hstate h')
  · rw [heq]
    exact h

variable {ps : WorkerPrograms σ WH} (hps : ∀ k args, (ps.callable k args).Leaves view)
include hps

lemma Leaves.take (h : w.Leaves view v) (m : Message) : (w.take ps m).Leaves view v := by
  cases m with
  | reply id wire => exact h.takeReply hheap (.reply id wire)
  | fail id e => exact h.takeReply hheap (.fail id e)
  | call id target wire =>
    show (w.serveCall ps id target wire).Leaves view v
    rcases serve_cases Unit ps w id target wire with
      ⟨e, -, heq, -⟩ | ⟨k, args, hp, -, heq, -⟩
    · rw [heq]
      exact h.post _
    · have hstep := hps k args (HasHeap.setHeap hp w.state)
      rw [hheap, h.state] at hstep
      rw [heq]
      exact h.runHandler hstep id

/-- No move of the thread changes what is seen. -/
theorem Leaves.move (h : w.Leaves view v) (hmove : w.move? ps = some w') : w'.Leaves view v := by
  obtain ⟨-, ⟨o, -, rfl, -⟩ | ⟨-, ⟨m, q, -, rfl, -⟩ | ⟨-, rfl, -⟩⟩⟩ := move_cases Unit hmove
  · exact h.resumeTop o
  · have hlink : Leaves view v { w with link := { w.link with toWorker := q } } :=
      h.congr rfl rfl h.state
    exact hlink.take hheap hps m
  · exact h.disconnect

end
end WorkerSide

/-! ## Networks -/

namespace Network
variable {y y' : Network σ HH WH β ρ} {i : ℕ} {c d : Channel σ HH WH β}
  {named : Array (Target → Option HH)} {ps : Programs σ HH WH}

/-- What is seen of the state, what targets name at the host ends, and that nothing under way
changes the former. -/
structure Leaves (view : σ → V) (v : V) (named : Array (Target → Option HH))
    (y : Network σ HH WH β ρ) : Prop where
  state : view y.state = v
  named : y.channels.map (·.host.handlerFor) = named
  serving : ∀ t ∈ y.serving, t.waiting.Leaves view
  running : ∀ t ∈ y.running, t.waiting.Leaves view
  threads : ∀ (i : ℕ) (c : Channel σ HH WH β) (thread : WorkerThread σ WH β),
    y.channels[i]? = some c → c.thread = some thread →
    (⟨thread, c.link, y.state⟩ : WorkerSide σ WH β).Leaves view v

namespace Leaves

section
variable (h : y.Leaves view v named)
include h

lemma work {s : σ} {u : V} (hs : view s = u) :
    ({ y with state := s } : Network σ HH WH β ρ).Leaves view u named where
  state := hs
  named := h.named
  serving := h.serving
  running := h.running
  threads i c thread hc hthread := (h.threads i c thread hc hthread).congr rfl rfl hs

/-- A channel changes, but neither its thread nor what is named at its host end. -/
lemma setChannel (hc : y.channels[i]? = some c) (hnamed : d.host.handlerFor = c.host.handlerFor)
    (hthread : d.thread = c.thread) : (y.setChannel i d).Leaves view v named where
  state := h.state
  named := (map_setChannel hc hnamed).trans h.named
  serving := h.serving
  running := h.running
  threads j c' thread hc' hthread' := by
    by_cases hne : i = j
    · subst hne
      rw [y.getElem?_setChannel hc, Option.some.injEq] at hc'
      subst hc'
      exact (h.threads i c thread hc (hthread ▸ hthread')).congr rfl rfl h.state
    · rw [y.getElem?_setChannel_of_ne hne] at hc'
      exact h.threads j c' thread hc' hthread'

/-- All channels change, but no thread has begun anything else. -/
lemma withChannels {cs : Array (Channel σ HH WH β)} {named' : Array (Target → Option HH)}
    (hnamed : cs.map (·.host.handlerFor) = named')
    (hthreads : ∀ (i : ℕ) (c' : Channel σ HH WH β) (t' : WorkerThread σ WH β), cs[i]? = some c' →
      c'.thread = some t' → ∃ c t, y.channels[i]? = some c ∧ c.thread = some t ∧
        t'.frames = t.frames ∧
        ∀ id resume, t'.base = .waiting id resume → t.base = .waiting id resume) :
    ({ y with channels := cs } : Network σ HH WH β ρ).Leaves view v named' where
  state := h.state
  named := hnamed
  serving := h.serving
  running := h.running
  threads i c' t' hc' ht' := by
    obtain ⟨c, t, hc, ht, hframes, hbase⟩ := hthreads i c' t' hc' ht'
    have hthread := h.threads i c t hc ht
    refine ⟨hthread.state, ?_, fun id resume hwaiting => ?_⟩
    · rw [hframes]
      exact hthread.frames
    · exact hthread.base id resume (hbase id resume hwaiting)

/-- One channel changes, but its thread has begun nothing else. -/
lemma modifyChannel {i : ℕ} {g : Channel σ HH WH β → Channel σ HH WH β}
    {k : (Target → Option HH) → Target → Option HH}
    (hhost : ∀ c, (g c).host.handlerFor = k c.host.handlerFor)
    (hthread : ∀ c t', (g c).thread = some t' → ∃ t, c.thread = some t ∧ t'.frames = t.frames ∧
      ∀ id resume, t'.base = .waiting id resume → t.base = .waiting id resume) :
    ({ y with channels := y.channels.modify i g } : Network σ HH WH β ρ).Leaves view v
      (named.modify i k) := by
  refine h.withChannels ?_ fun j c' t' hc' ht' => ?_
  · rw [← h.named]
    refine Array.ext_getElem? fun j => ?_
    rw [Array.getElem?_map, Array.getElem?_modify, Array.getElem?_modify, Array.getElem?_map]
    split
    · rw [Option.map_map, Option.map_map]
      exact congrArg (Option.map · _) (funext hhost)
    · rfl
  · rw [Array.getElem?_modify] at hc'
    split at hc'
    · obtain ⟨c, hc, rfl⟩ := Option.map_eq_some_iff.1 hc'
      obtain ⟨t, ht, hsame⟩ := hthread c t' ht'
      exact ⟨c, t, hc, ht, hsame⟩
    · exact ⟨c', t', hc', ht', rfl, fun _ _ => id⟩

/-- There is a channel more, without a thread. -/
lemma push {host : HostEndpoint HH} {link : Link} {s : σ} {u : V} (hs : view s = u) :
    ({ y with state := s, channels := y.channels.push ⟨host, link, none⟩ } :
      Network σ HH WH β ρ).Leaves view u (named.push host.handlerFor) where
  state := hs
  named := by rw [Array.map_push, h.named]
  serving := h.serving
  running := h.running
  threads i c thread hc hthread := by
    rw [Array.getElem?_push] at hc
    split at hc
    · cases hc
      cases hthread
    · exact (h.threads i c thread hc hthread).congr rfl rfl hs

/-- A channel is exchanged for one whose thread leaves alone what is seen. -/
lemma exchange {s : σ} {u : V} (hs : view s = u)
    (hd : ∀ thread, d.thread = some thread → WorkerSide.Leaves view u ⟨thread, d.link, s⟩) :
    ({ y.setChannel i d with state := s } : Network σ HH WH β ρ).Leaves view u
      (named.setIfInBounds i d.host.handlerFor) where
  state := hs
  named := by
    rw [← h.named]
    exact Array.map_setIfInBounds
  serving := h.serving
  running := h.running
  threads j c thread hc hthread := by
    have hset : (y.channels.setIfInBounds i d)[j]? = some c := hc
    rw [Array.getElem?_setIfInBounds] at hset
    split at hset
    · obtain ⟨-, hd'⟩ := Option.ite_none_right_eq_some.1 hset
      cases hd'
      exact hd thread hthread
    · exact (h.threads j c thread hset hthread).congr rfl rfl hs

/-- Tasks are taken off the list, or put on it. -/
lemma withServing {ts : List (Serving σ)} (hts : ∀ t ∈ ts, t.waiting.Leaves view) :
    ({ y with serving := ts } : Network σ HH WH β ρ).Leaves view v named :=
  ⟨h.state, h.named, hts, h.running, h.threads⟩

lemma withRunning {ts : List (Running σ ρ)} (hts : ∀ t ∈ ts, t.waiting.Leaves view) :
    ({ y with running := ts } : Network σ HH WH β ρ).Leaves view v named :=
  ⟨h.state, h.named, h.serving, hts, h.threads⟩

variable [HasHeap σ]

/-! ### Tasks -/

/-- A task runs until it ends, or waits and changes nothing when it goes on. -/
lemma runStep {α : Type} {step : HostStep σ α} (hstep : step.Leaves view v) :
    (y.runStep step).2.Leaves view v named ∧
      ∀ w, (y.runStep step).1 = .inr w → w.Leaves view := by
  induction step generalizing y with
  | done a s => exact ⟨h.work hstep, nofun⟩
  | ask q s resume ih =>
    obtain ⟨hs, hresume⟩ := hstep
    have hgo : ∀ r, (resume r s).Leaves view v := fun r => hs ▸ hresume r s
    cases q with
    | never => exact ⟨h.work hs, fun w hw => by cases hw; trivial⟩
    | line session read => exact ⟨h.work hs, fun w hw => by cases hw; exact hresume⟩
    | sleep millis => exact ih () s h (hgo ())
    | call j target args =>
      have hwork := h.work hs
      unfold Network.runStep
      dsimp only
      cases hc : y.channels[j]? with
      | none => exact ih (.error .closed) s hwork (hgo _)
      | some c =>
        dsimp only
        have hnamed := c.host.handlerFor_startCall c.link (HasHeap.heap s) target args
        generalize c.host.startCall c.link (HasHeap.heap s) target args = r at hnamed
        obtain ⟨err | id, host, link⟩ := r
        -- a call that can not be sent has failed already, and the task goes on in the same step
        · exact ih (.error err) s (hwork.setChannel hc hnamed rfl) (hgo _)
        · exact ⟨hwork.setChannel hc hnamed rfl, fun w hw => by cases hw; exact hresume⟩

lemma continueServing {step : HostStep σ (Except RemoteError Value)} (hstep : step.Leaves view v)
    (channel : ℕ) (id : CallId) : (y.continueServing channel id step).Leaves view v named := by
  obtain ⟨hran, hwaits⟩ := h.runStep hstep
  unfold Network.continueServing
  generalize y.runStep step = r at hran hwaits
  obtain ⟨outcome | waiting, y'⟩ := r
  · dsimp only
    cases hc : y'.channels[channel]? with
    | none => exact hran
    | some c => exact hran.setChannel hc rfl rfl
  · refine hran.withServing fun t ht => ?_
    rcases List.mem_append.1 ht with ht | ht
    · exact hran.serving t ht
    · obtain rfl := List.mem_singleton.1 ht
      exact hwaits _ rfl

lemma continueRunning {step : HostStep σ ρ} (hstep : step.Leaves view v) (ticket : ℕ) :
    (y.continueRunning ticket step).Leaves view v named := by
  obtain ⟨hran, hwaits⟩ := h.runStep hstep
  unfold Network.continueRunning
  generalize y.runStep step = r at hran hwaits
  obtain ⟨result | waiting, y'⟩ := r
  · exact ⟨hran.state, hran.named, hran.serving, hran.running, hran.threads⟩
  · refine hran.withRunning fun t ht => ?_
    rcases List.mem_append.1 ht with ht | ht
    · exact hran.running t ht
    · obtain rfl := List.mem_singleton.1 ht
      exact hwaits _ rfl

omit [HasHeap σ] in
lemma takeServing {before after : List (Serving σ)} {t : Serving σ}
    (hserving : y.serving = before ++ t :: after) :
    t.waiting.Leaves view ∧
      ({ y with serving := before ++ after } : Network σ HH WH β ρ).Leaves view v named := by
  have hothers : before ++ after ⊆ y.serving :=
    hserving ▸ ((List.sublist_cons_self t after).append_left before).subset
  exact ⟨h.serving t (by simp [hserving]), h.withServing fun u hu => h.serving u (hothers hu)⟩

omit [HasHeap σ] in
lemma takeRunning {before after : List (Running σ ρ)} {t : Running σ ρ}
    (hrunning : y.running = before ++ t :: after) :
    t.waiting.Leaves view ∧
      ({ y with running := before ++ after } : Network σ HH WH β ρ).Leaves view v named := by
  have hothers : before ++ after ⊆ y.running :=
    hrunning ▸ ((List.sublist_cons_self t after).append_left before).subset
  exact ⟨h.running t (by simp [hrunning]), h.withRunning fun u hu => h.running u (hothers hu)⟩

/-- The task that waits for a call goes on with its outcome. -/
lemma resolve (channel : ℕ) (id : CallId) (outcome : CallOutcome) :
    (y.resolve channel id outcome).Leaves view v named := by
  obtain ⟨before, t, after, resume, hserving, hwaiting, heq⟩ |
    ⟨before, t, after, resume, hrunning, hwaiting, heq⟩ | heq := y.resolve_cases channel id outcome
  · obtain ⟨hwaits, hothers⟩ := h.takeServing hserving
    rw [hwaiting] at hwaits
    rw [heq]
    exact hothers.continueServing (h.state ▸ hwaits outcome y.state) _ _
  · obtain ⟨hwaits, hothers⟩ := h.takeRunning hrunning
    rw [hwaiting] at hwaits
    rw [heq]
    exact hothers.continueRunning (h.state ▸ hwaits outcome y.state) _
  · rw [heq]
    exact h

lemma reject (channel : ℕ) (ids : List CallId) :
    (y.reject channel ids).Leaves view v named := by
  unfold Network.reject
  induction ids generalizing y with
  | nil => exact h
  | cons id ids ih => exact ih (h.resolve channel id _)

/-- A task whose read has ended goes on. -/
lemma wake (hwake : y.wake? ps = some y') : y'.Leaves view v named := by
  obtain ⟨before, t, after, _, _, line, resume, hserving, -, hwaiting, rfl⟩ |
    ⟨before, t, after, _, _, line, resume, hrunning, -, hwaiting, rfl⟩ := wake_cases hwake
  · obtain ⟨hwaits, hothers⟩ := h.takeServing hserving
    rw [hwaiting] at hwaits
    exact hothers.continueServing (h.state ▸ hwaits line y.state) _ _
  · obtain ⟨hwaits, hothers⟩ := h.takeRunning hrunning
    rw [hwaiting] at hwaits
    exact hothers.continueRunning (h.state ▸ hwaits line y.state) _

/-- A task of the host's own begins. -/
lemma spawn {task : HostTask σ ρ} (htask : task.Leaves view) :
    (y.spawn task).2.Leaves view v named := by
  have hnext : ({ y with nextTicket := y.nextTicket + 1 } : Network σ HH WH β ρ).Leaves view v
      named := ⟨h.state, h.named, h.serving, h.running, h.threads⟩
  exact hnext.continueRunning (h.state ▸ htask y.state) _

/-- The host closes its end of a channel, and the tasks that wait there go on. -/
lemma closeHost (i : ℕ) : (y.closeHost i).Leaves view v named := by
  unfold Network.closeHost
  cases hc : y.channels[i]? with
  | none => exact h
  | some c =>
    have hnamed := c.host.handlerFor_close c.link
    dsimp only
    generalize c.host.close c.link = r at hnamed
    obtain ⟨ids, host, link⟩ := r
    exact (h.setChannel (d := { c with host := host, link := link }) hc hnamed rfl).reject i ids

/-! ### Messages and threads -/

section
variable (hps : ps.Leave view named)
include hps

/-- What is called at a host end changes nothing. -/
lemma handler (hc : y.channels[i]? = some c) {target : Target} {handler : HH}
    (hfound : c.host.handlerFor target = some handler) (args : List Value) :
    (ps.host i handler args).Leaves view := by
  refine hps.host c.host.handlerFor ?_ target handler hfound i args
  rw [← h.named, Array.mem_map]
  exact ⟨c, Array.mem_of_getElem? hc, rfl⟩

lemma serve (hc : y.channels[i]? = some c) (id : CallId) (target : Target) (wire : Wire) :
    (y.serve ps i c id target wire).Leaves view v named := by
  unfold Network.serve
  split
  · exact h.setChannel hc rfl rfl
  · next handler args hp hin =>
    have hs : view (HasHeap.setHeap hp y.state) = v := (hps.heap _ _).trans h.state
    refine (h.work hs).continueServing ?_ i id
    obtain ⟨hfound, -⟩ :=
      Inquiry.inbound_eq_run (q := ⟨id, target, wire, _, c.host.handlerFor target⟩) hin
    exact hs ▸ h.handler hps hc hfound args (HasHeap.setHeap hp y.state)

/-- The host takes a message of some channel, or its end. -/
lemma dispatch (hdispatch : y.dispatch? ps i = some y') : y'.Leaves view v named := by
  obtain ⟨c, hc, hdispatch⟩ := Option.bind_eq_some_iff.1 hdispatch
  obtain ⟨-, -, hdispatch⟩ := Option.bind_eq_some_iff.1 hdispatch
  cases hreceive : c.link.toHost.receive with
  | waiting => simp [hreceive] at hdispatch
  | ended =>
    simp only [hreceive] at hdispatch
    have hnamed := c.host.handlerFor_finish c.link
    generalize c.host.finish c.link = r at hnamed hdispatch
    obtain ⟨ids, host, link⟩ := r
    cases hdispatch
    exact (h.setChannel (d := { c with host := host, link := link }) hc hnamed rfl).reject i ids
  | message m q =>
    simp only [hreceive] at hdispatch
    have hnamed := c.host.handlerFor_dispatch (HasHeap.heap y.state) m
    generalize c.host.dispatch (HasHeap.heap y.state) m = r at hnamed hdispatch
    obtain ⟨event, host, hp⟩ := r
    have htaken := (h.setChannel (d := { c with host := host, link := { c.link with toHost := q } })
      hc hnamed rfl).work ((hps.heap y.state hp).trans h.state)
    cases hdispatch
    cases event with
    | resolved id outcome => exact htaken.resolve i id outcome
    | unknown => exact htaken
    | inbound id target args => exact htaken.serve hps (y.getElem?_setChannel hc) id target args

/-- The thread of some channel moves. -/
lemma advance (hadvance : y.advance? ps i = some y') : y'.Leaves view v named := by
  obtain ⟨c, hc, hadvance⟩ := Option.bind_eq_some_iff.1 hadvance
  obtain ⟨thread, hthread, hadvance⟩ := Option.bind_eq_some_iff.1 hadvance
  obtain ⟨w, hmove, hadvance⟩ := Option.bind_eq_some_iff.1 hadvance
  cases hadvance
  have hmoved := (h.threads i c thread hc hthread).move hps.heap (hps.worker i) hmove
  refine ⟨hmoved.state, Eq.trans (map_setChannel hc ?_) h.named, h.serving, h.running, ?_⟩
  · rfl
  intro j c' thread' hc' hthread'
  by_cases hne : i = j
  · subst hne
    rw [y.getElem?_setChannel hc, Option.some.injEq] at hc'
    subst hc'
    cases hthread'
    exact hmoved
  -- the other threads find what they are to leave alone as it was
  · rw [y.getElem?_setChannel_of_ne hne] at hc'
    exact (h.threads j c' thread' hc' hthread').congr rfl rfl hmoved.state

/-- Whatever the network does next. -/
lemma next (hstep : y.step? ps = some y') : y'.Leaves view v named := by
  unfold step? at hstep
  rcases (Option.orElse_eq_some _ _ _).1 hstep with hwake | ⟨-, hstep⟩
  · exact h.wake hwake
  · rcases (Option.orElse_eq_some _ _ _).1 hstep with hdispatch | ⟨-, hadvance⟩
    · obtain ⟨j, -, hj⟩ := List.exists_of_findSome?_eq_some hdispatch
      exact h.dispatch hps hj
    · obtain ⟨j, -, hj⟩ := List.exists_of_findSome?_eq_some hadvance
      exact h.advance hps hj

/-- Whatever it does until nothing more is possible, or at any time before. -/
theorem settle (fuel : ℕ) : (y.settle ps fuel).Leaves view v named := by
  induction fuel generalizing y with
  | zero => exact h
  | succ fuel ih =>
    unfold Network.settle
    cases hstep : y.step? ps with
    | none => exact h
    | some y' => exact ih (h.next hps hstep)

end

end
end Leaves

end Network
end WorkerHost
