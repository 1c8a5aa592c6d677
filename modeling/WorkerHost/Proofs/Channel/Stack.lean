import WorkerHost.Proofs.Channel.Agreement
import WorkerHost.Proofs.Channel.Peer

/-!
# The calls on the stack of a worker thread

Whatever the peer sends, the calls that are outstanding are those on the stack, and what is put
aside is put aside for one of them. A call that is made is pushed, one that returns is popped, and
an answer to any other call on the stack waits in the stash, so nothing is left behind in between.

* `Accounts`: how the endpoint's tables and the log fit a stack of calls;
* `Kept`: what there is of the answers to a call on the stack, `Due`: what a call may return;
* `Sound.move`, `Sound.step`: every move of the thread and every step around it keeps all this;
* `PeerRun.stack_accounted`: so it holds at every moment of every run.
-/

namespace WorkerHost

namespace Heard
variable {HH WH : Type}

/-- Whether it is that a call is made or returns. -/
def changesCalls : Heard HH WH → Bool
  | event (.ofWorker _ e) => e.isIssued || e.isCompleted
  | _ => false

end Heard

section
variable {HH WH : Type} {log more : List (Heard HH WH)} {id : CallId}

/-- What neither makes a call nor lets one return shows in neither list. -/
lemma ids_of_unchanged (h : ∀ x ∈ more, x.changesCalls = false) :
    issuedIn more = [] ∧ returnedIn more = [] := by
  have hnot (p : CallId × CallEvent HH) (hp : p ∈ callLog more) :
      p.2.isIssued = false ∧ p.2.isCompleted = false := by
    have hevent := h _ (mem_callLog.1 hp)
    rwa [Heard.changesCalls, Bool.or_eq_false_iff] at hevent
  constructor
  · rw [issuedIn, issuedIds, List.map_eq_nil_iff, List.filter_eq_nil_iff]
    intro p hp
    rw [(hnot p hp).1]
    exact Bool.false_ne_true
  · rw [returnedIn, completedIds, List.map_eq_nil_iff, List.filter_eq_nil_iff]
    intro p hp
    rw [(hnot p hp).2]
    exact Bool.false_ne_true

/-- What happens to calls is no answer. -/
@[simp] lemma answers_events (evs : List (Event HH WH)) :
    (evs.map Heard.event).filterMap (Heard.answerTo? id) = [] := by
  rw [List.filterMap_eq_nil_iff]
  intro x hx
  obtain ⟨e, -, rfl⟩ := List.mem_map.1 hx
  rfl

end

namespace WorkerSide
variable {σ HH WH β : Type}

/-- What a call may return when so much has been heard: what one of the answers to it carries, or,
if the peer is gone before any, that the channel is closed. -/
inductive Due (log : List (Heard HH WH)) (id : CallId) : CallOutcome → Prop where
  | answered {m h h' o} (hmem : (m, h) ∈ repliesTo id log) (hcarries : m.Carries h o h') :
      Due log id o
  | closed (hnone : repliesTo id log = []) (hended : .ended ∈ log) : Due log id (.error .closed)

/-- What there is of the answers to a call that waits: none has come, or one is put aside. -/
inductive Kept (e : WorkerEndpoint WH) (log : List (Heard HH WH)) (id : CallId) : Prop where
  | waiting (haside : e.aside? id = none) (hnone : repliesTo id log = [])
  | aside {m h h' o} (haside : e.aside? id = some o) (hmem : (m, h) ∈ repliesTo id log)
      (hcarries : m.Carries h o h')

/-- What is heard of a call that returns is that it returns what it may. -/
def Returned (pre : List (Heard HH WH)) : Heard HH WH → Prop
  | .event (.ofWorker id (.completed o)) => Due pre id o
  | _ => True

/-- How an endpoint with its link fits the calls on a stack, the top first, and what has happened
so far. -/
structure Accounts (e : WorkerEndpoint WH) (l : Link) (ids : List CallId)
    (log : List (Heard HH WH)) : Prop where
  outstanding : e.outstanding = ids
  distinct : ids.Nodup
  depth : e.depth = ids.length
  stash : ∀ entry ∈ e.stash, entry.1 ∈ ids
  once : (returnedIn log ++ ids).Perm (issuedIn log)
  numbered : Numbered (issuedIn log)
  next : l.toHost.Joined → (⟨e.nextId⟩ : CallId) = callNumber (issuedIn log).length
  returned : Told Returned log

variable {e e' : WorkerEndpoint WH} {l l' : Link} {ids rest : List CallId} {id : CallId}
  {log more : List (Heard HH WH)} {w w' : WorkerSide σ WH β}

/-! ## Endpoint and log -/

lemma aside?_eq_none (h : ∀ entry ∈ e.stash, entry.1 ≠ id) : e.aside? id = none := by
  rw [WorkerEndpoint.aside?, Option.map_eq_none_iff, List.find?_eq_none]
  intro entry hentry
  simpa using h entry hentry

lemma aside?_settle {a : CallId} (hne : a ≠ id) : (e.settle id).aside? a = e.aside? a := by
  simp only [WorkerEndpoint.aside?, WorkerEndpoint.settle, List.find?_filter]
  congr 2
  funext entry
  by_cases hentry : entry.1 = a
  · simp [hentry, hne]
  · simp [hentry]

lemma aside?_putAside_self (o : CallOutcome) : (e.putAside id o).aside? id = some o := by
  simp [WorkerEndpoint.aside?, WorkerEndpoint.putAside]

lemma aside?_putAside_of_ne {a : CallId} (hne : a ≠ id) (o : CallOutcome) :
    (e.putAside id o).aside? a = e.aside? a := by
  have hsettle := aside?_settle (e := e) hne
  simp only [WorkerEndpoint.aside?, WorkerEndpoint.putAside, WorkerEndpoint.settle] at hsettle ⊢
  rw [List.find?_cons_of_neg (by simpa using hne.symm)]
  exact hsettle

/-- What is put aside for a call stays while nothing of the call is heard. -/
lemma Kept.append (h : Kept e log id) (hid : id ∈ issuedIn log)
    (hother : more.filterMap (Heard.answerTo? id) = []) : Kept e (log ++ more) id := by
  have hreplies : repliesTo id (log ++ more) = repliesTo id log := by
    rw [repliesTo_append hid, hother, List.append_nil]
  cases h with
  | waiting haside hnone => exact .waiting haside (hreplies.trans hnone)
  | aside haside hmem hcarries => exact .aside haside (hreplies ▸ hmem) hcarries

lemma Kept.congr (h : Kept e log id) (haside : e'.aside? id = e.aside? id) : Kept e' log id := by
  cases h with
  | waiting hnone hreplies => exact .waiting (haside.trans hnone) hreplies
  | aside hsome hmem hcarries => exact .aside (haside.trans hsome) hmem hcarries

/-- An answer that was put aside for a call may be returned from it. -/
lemma Kept.due {o : CallOutcome} (h : Kept e log id) (haside : e.aside? id = some o) :
    Due log id o := by
  cases h with
  | waiting hnone => cases hnone.symm.trans haside
  | aside hsome hmem hcarries =>
    obtain rfl := Option.some.inj (hsome.symm.trans haside)
    exact .answered hmem hcarries

/-- The calls on the stack have been made. -/
lemma Accounts.issued (h : Accounts e l ids log) (hid : id ∈ ids) : id ∈ issuedIn log :=
  h.once.subset (List.mem_append_right _ hid)

lemma Accounts.congr (h : Accounts e l ids log) (houtstanding : e'.outstanding = e.outstanding)
    (hdepth : e'.depth = e.depth) (hstash : e'.stash = e.stash)
    (hnext : l'.toHost.Joined → l.toHost.Joined ∧ e'.nextId = e.nextId) :
    Accounts e' l' ids log where
  outstanding := houtstanding.trans h.outstanding
  distinct := h.distinct
  depth := hdepth.trans h.depth
  stash := hstash ▸ h.stash
  once := h.once
  numbered := h.numbered
  next hjoined := by
    rw [(hnext hjoined).2]
    exact h.next (hnext hjoined).1
  returned := h.returned

/-- Whatever neither makes a call nor lets one return leaves the accounts as they are. -/
lemma Accounts.append (h : Accounts e l ids log) (hmore : ∀ x ∈ more, x.changesCalls = false) :
    Accounts e l ids (log ++ more) := by
  obtain ⟨hnone, hnone'⟩ := ids_of_unchanged hmore
  have hissued : issuedIn (log ++ more) = issuedIn log := by
    rw [issuedIn_append, hnone, List.append_nil]
  have hreturned : returnedIn (log ++ more) = returnedIn log := by
    rw [returnedIn_append, hnone', List.append_nil]
  refine ⟨h.outstanding, h.distinct, h.depth, h.stash, ?_, ?_, ?_, ?_⟩
  · rw [hissued, hreturned]
    exact h.once
  · rw [hissued]
    exact h.numbered
  · rw [hissued]
    exact h.next
  · refine h.returned.append fun pre x post heq => ?_
    have hx := hmore x (by rw [heq]; simp)
    cases x with
    | event e =>
      cases e with
      | ofWorker a e => cases e <;> trivial
      | ofHost => trivial
    | _ => trivial

/-- As long as the numbers suffice, the next call is new. -/
lemma Accounts.next_not_issued (h : Accounts e l ids log) (hjoined : l.toHost.Joined)
    (hbound : (issuedIn log).length < 2 ^ 64) : (⟨e.nextId⟩ : CallId) ∉ issuedIn log := by
  rw [h.next hjoined]
  exact h.numbered.next_not_mem hbound

/-- A call that is made goes on top of the stack. -/
lemma Accounts.issue (h : Accounts e l ids log) (hjoined : l.toHost.Joined)
    (hbound : (issuedIn log).length < 2 ^ 64) (m : Message) (target : Target) (xs : List Value)
    (hp : Heap) :
    Accounts
      { e with
        nextId := e.nextId + 1
        depth := e.depth + 1
        outstanding := ⟨e.nextId⟩ :: e.outstanding }
      (l.tell m) (⟨e.nextId⟩ :: ids)
      (log ++ [.event (.ofWorker ⟨e.nextId⟩ (.issued target xs hp))]) := by
  have hnext := h.next hjoined
  have hfresh := h.next_not_issued hjoined hbound
  have hissued : issuedIn (log ++ [.event (.ofWorker ⟨e.nextId⟩ (.issued target xs hp))]) =
      issuedIn log ++ [⟨e.nextId⟩] := issuedIn_append
  have hreturned : returnedIn (log ++ [.event (.ofWorker ⟨e.nextId⟩ (.issued target xs hp))]) =
      returnedIn log := by
    rw [returnedIn_append]
    exact List.append_nil _
  constructor
  · rw [h.outstanding]
  · exact List.nodup_cons.2 ⟨fun hmem => hfresh (h.issued hmem), h.distinct⟩
  · rw [h.depth, List.length_cons]
  · exact fun entry hentry => List.mem_cons_of_mem _ (h.stash entry hentry)
  · rw [hissued, hreturned]
    exact List.perm_middle.trans ((h.once.cons _).trans (List.perm_append_singleton _ _).symm)
  · rw [hissued]
    exact h.numbered.push hnext
  · intro _
    rw [hissued, List.length_append, List.length_singleton]
    exact callNumber_succ hnext
  · exact h.returned.append (told_singleton trivial)

/-- The call on top of the stack returns with what it may return. -/
lemma Accounts.settle (h : Accounts e l (id :: rest) log) {o : CallOutcome} (hdue : Due log id o) :
    Accounts (e.settle id) l rest (log ++ [.event (.ofWorker id (.completed o))]) := by
  have hnotin : id ∉ rest := (List.nodup_cons.1 h.distinct).1
  have hissued : issuedIn (log ++ [.event (.ofWorker id (.completed o))]) = issuedIn log := by
    rw [issuedIn_append]
    exact List.append_nil _
  have hreturned : returnedIn (log ++ [.event (.ofWorker id (.completed o))]) =
      returnedIn log ++ [id] := returnedIn_append
  constructor
  · simp only [WorkerEndpoint.settle, h.outstanding]
    rw [List.filter_cons_of_neg (by simp), filter_ne_of_not_mem hnotin]
  · exact (List.nodup_cons.1 h.distinct).2
  · simp only [WorkerEndpoint.settle, h.depth, List.length_cons, Nat.add_sub_cancel]
  · intro entry hentry
    obtain ⟨hentry, hne⟩ := List.mem_filter.1 hentry
    exact (List.mem_cons.1 (h.stash entry hentry)).resolve_left (by simpa using hne)
  · rw [hissued, hreturned, List.append_assoc]
    exact h.once
  · rw [hissued]
    exact h.numbered
  · rw [hissued]
    exact h.next
  · refine h.returned.append (told_singleton ?_)
    rw [List.append_nil]
    exact hdue

lemma Accounts.putAside (h : Accounts e l ids log) (hid : id ∈ ids) (o : CallOutcome) :
    Accounts (e.putAside id o) l ids log where
  outstanding := h.outstanding
  distinct := h.distinct
  depth := h.depth
  stash entry hentry := by
    rcases List.mem_cons.1 hentry with rfl | hentry
    · exact hid
    · exact h.stash entry (List.mem_filter.1 hentry).1
  once := h.once
  numbered := h.numbered
  next := h.next
  returned := h.returned

/-! ## Operations -/

/-- Everything is accounted for. -/
structure Sound (w : WorkerSide σ WH β) (log : List (Heard HH WH)) : Prop where
  accounts : Accounts w.endpoint w.link w.callIds log
  kept : ∀ id ∈ w.callIds, Kept w.endpoint log id

lemma Sound.append (h : Sound w log) (hmore : ∀ x ∈ more, x.changesCalls = false)
    (hother : ∀ id ∈ w.callIds, more.filterMap (Heard.answerTo? id) = []) :
    Sound w (log ++ more) :=
  ⟨h.accounts.append hmore,
    fun id hid => (h.kept id hid).append (h.accounts.issued hid) (hother id hid)⟩

lemma Sound.events (h : Sound w log) (evs : List (Event HH WH))
    (hevs : ∀ e ∈ evs, (Heard.event e).changesCalls = false) :
    Sound w (log ++ evs.map .event) := by
  refine h.append (fun x hx => ?_) fun _ _ => answers_events evs
  obtain ⟨e, he, rfl⟩ := List.mem_map.1 hx
  exact hevs e he

lemma Sound.congr (h : Sound w log) (hcalls : w'.callIds = w.callIds)
    (houtstanding : w'.endpoint.outstanding = w.endpoint.outstanding)
    (hdepth : w'.endpoint.depth = w.endpoint.depth)
    (hstash : w'.endpoint.stash = w.endpoint.stash)
    (hnext : w'.link.toHost.Joined →
      w.link.toHost.Joined ∧ w'.endpoint.nextId = w.endpoint.nextId) :
    Sound w' log := by
  refine ⟨?_, fun id hid => (h.kept id (hcalls ▸ hid)).congr ?_⟩
  · rw [hcalls]
    exact h.accounts.congr houtstanding hdepth hstash hnext
  · rw [WorkerEndpoint.aside?, hstash]
    rfl

/-- A post changes no call of the thread. -/
lemma Sound.post (h : Sound w log) (m : Message) : Sound (w.post m) log := by
  rcases post_cases w m with heq | heq
  · rw [heq]
    exact h
  · rw [heq]
    exact h.congr rfl rfl rfl rfl fun hjoined => ⟨⟨hjoined.sending, hjoined.receiving⟩, rfl⟩

lemma Sound.turn (h : Sound w log) {n : UInt64} {s : σ}
    (hnext : w.link.toHost.Joined → n = w.endpoint.nextId) : Sound (w.turn n s) log :=
  h.congr rfl rfl rfl rfl fun hjoined => ⟨hjoined, hnext hjoined⟩

/-- A call that is made waits on top of the stack, and no answer to it has come. -/
lemma Sound.issue (h : Sound w log) (hjoined : w.link.toHost.Joined)
    (hbound : (issuedIn log).length < 2 ^ 64) (s : σ) (args : Wire) (target : Target)
    (xs : List Value) (hp : Heap)
    (hcalls : w'.callIds = ⟨w.endpoint.nextId⟩ :: w.callIds)
    (hendpoint : w'.endpoint = ({ w with state := s }.issue target args).endpoint)
    (hlink : w'.link = ({ w with state := s }.issue target args).link) :
    Sound w' (log ++ [.event (.ofWorker ⟨w.endpoint.nextId⟩ (.issued target xs hp))]) := by
  have hfresh := h.accounts.next_not_issued hjoined hbound
  constructor
  · rw [hcalls, hendpoint, hlink]
    exact h.accounts.issue hjoined hbound _ target xs hp
  · intro a ha
    rw [hcalls] at ha
    have haside : w'.endpoint.aside? a = w.endpoint.aside? a := by
      rw [hendpoint]
      rfl
    refine Kept.congr ?_ haside
    rcases List.mem_cons.1 ha with rfl | ha
    · refine .waiting (aside?_eq_none fun entry hentry heq => ?_) ?_
      · have hin := h.accounts.issued (h.accounts.stash entry hentry)
        exact hfresh (heq ▸ hin)
      · rw [repliesTo_of_not_issued hfresh]
        exact since_eq_nil rfl
    · exact (h.kept a ha).append (h.accounts.issued ha) rfl

/-- The numbers suffice for what comes first if they suffice for all. -/
lemma bound_of_append {n : ℕ} (hbound : (issuedIn (log ++ more)).length ≤ n) :
    (issuedIn log).length ≤ n := by
  rw [issuedIn_append, List.length_append] at hbound
  omega

lemma bound_of_issued {target : Target} {xs : List Value} {hp : Heap}
    (hbound : (issuedIn (log ++ [.event (.ofWorker id (.issued target xs hp))])).length ≤ 2 ^ 64) :
    (issuedIn log).length < 2 ^ 64 := by
  rw [issuedIn_append, List.length_append] at hbound
  exact hbound

variable [HasHeap σ]

/-- A handler's computation answers, or it waits on the stack. -/
lemma Sound.handler (h : Sound w log) (answering : CallId)
    (step : WorkerStep σ (Except RemoteError Value))
    (hbound :
      (issuedIn (log ++ (w.handlerEvents answering step).map .event)).length ≤ 2 ^ 64) :
    Sound (w.runHandler answering step) (log ++ (w.handlerEvents answering step).map .event) := by
  unfold handlerEvents at hbound ⊢
  unfold runHandler
  have hpassed := w.runStep_passed step
  generalize w.runStep step = r at hpassed hbound
  cases hpassed with
  | ended result n s hnext =>
    refine ((h.turn hnext).events _ fun e he => ?_).post _
    rw [List.mem_singleton.1 he]
    rfl
  | blocked call s args resume hopen hjoined hpack =>
    exact h.issue hjoined (bound_of_issued hbound) s args _ _ _ rfl rfl rfl

/-- A computation of the thread's own waits at the bottom of an empty stack. -/
lemma Sound.base (h : Sound w log) (hempty : w.callIds = []) (step : WorkerStep σ β)
    (hbound : (issuedIn (log ++ (w.baseEvents step).map .event)).length ≤ 2 ^ 64) :
    Sound (w.runBase step) (log ++ (w.baseEvents step).map .event) := by
  have hframes : w.thread.frames = [] := List.map_eq_nil_iff.1 (List.append_eq_nil_iff.1 hempty).1
  unfold baseEvents at hbound ⊢
  unfold runBase
  have hpassed := w.runStep_passed step
  generalize w.runStep step = r at hpassed hbound
  cases hpassed with
  | ended b n s hnext =>
    rw [List.map_nil, List.append_nil]
    refine (h.turn (s := s) hnext).congr ?_ rfl rfl rfl fun hjoined => ⟨hjoined, rfl⟩
    have hturn : (w.turn n s).callIds = [] := hempty
    rw [hturn]
    show w.thread.frames.map (·.waiting) ++ [] = []
    rw [hframes]
    rfl
  | blocked call s args resume hopen hjoined hpack =>
    refine h.issue hjoined (bound_of_issued hbound) s args _ _ _ ?_ rfl rfl
    rw [hempty]
    show w.thread.frames.map (·.waiting) ++ [_] = [_]
    rw [hframes]
    rfl

lemma Sound.serve {ps : WorkerPrograms σ WH} (h : Sound w log) (a : CallId) (target : Target)
    (args : Wire)
    (hbound :
      (issuedIn (log ++ (w.serveEvents ps a target args).map .event)).length ≤ 2 ^ 64) :
    Sound (w.serveCall ps a target args) (log ++ (w.serveEvents ps a target args).map .event) := by
  rcases serve_cases HH ps w a target args with
    ⟨e, -, heq, hevents⟩ | ⟨callable, args', h', -, heq, hevents⟩
  · rw [heq, hevents]
    exact (h.events _ (by simp [Heard.changesCalls])).post _
  · have hserved : Sound w (log ++ [.ofHost a (.served target args (HasHeap.heap w.state)
        (w.endpoint.handlerFor target)), .ofHost a (.ran callable args' h')].map .event) :=
      h.events _ (by simp [Heard.changesCalls])
    rw [hevents, List.map_append, ← List.append_assoc] at hbound
    rw [heq, hevents, List.map_append, ← List.append_assoc]
    exact hserved.handler a _ hbound

omit [HasHeap σ] in
/-- The call that returns leaves the stack, and the others wait as before. -/
lemma Sound.pop (h : Accounts w.endpoint w.link (id :: rest) log) (htop : w.callIds = id :: rest)
    (hkept : ∀ a ∈ rest, Kept w.endpoint log a) {o : CallOutcome} (hdue : Due log id o) :
    Sound w.popTop (log ++ [.event (.ofWorker id (.completed o))]) := by
  obtain ⟨hcalls, hendpoint, hlink⟩ := popTop_eq htop
  constructor
  · rw [hcalls, hendpoint, hlink]
    exact h.settle hdue
  · intro a ha
    rw [hcalls] at ha
    have hne : a ≠ id := fun heq => (List.nodup_cons.1 h.distinct).1 (heq ▸ ha)
    rw [hendpoint]
    refine ((hkept a ha).congr (aside?_settle hne)).append ?_ rfl
    exact h.issued (List.mem_cons_of_mem _ ha)

/-- The call on top of the stack returns, and what made it goes on. -/
lemma Sound.resume (h : Accounts w.endpoint w.link w.callIds log) (htop : w.callIds = id :: rest)
    (hkept : ∀ a ∈ rest, Kept w.endpoint log a) {o : CallOutcome} (hdue : Due log id o)
    (hbound : (issuedIn (log ++ (w.resumeEvents o).map .event)).length ≤ 2 ^ 64) :
    Sound (w.resumeTop o) (log ++ (w.resumeEvents o).map .event) := by
  have hpop := Sound.pop (htop ▸ h) htop hkept hdue
  have hcalls := (popTop_eq htop).1
  rcases resume_cases HH w o with ⟨f, others, hframes, heq, hevents⟩ |
    ⟨a, resume, hframes, hbase, heq, hevents⟩ | ⟨hnone, -, -⟩
  · obtain ⟨rfl, -⟩ : f.waiting = id ∧ _ = rest := by
      rw [callIds, hframes] at htop
      exact List.cons.inj htop
    rw [hevents, List.map_cons, List.append_cons] at hbound
    rw [heq, hevents, List.map_cons, List.append_cons]
    exact hpop.handler _ _ hbound
  · obtain ⟨rfl, hrest⟩ : a = id ∧ [] = rest := by
      rw [callIds, hframes, hbase] at htop
      exact List.cons.inj htop
    rw [hevents, List.map_cons, List.append_cons] at hbound
    rw [heq, hevents, List.map_cons, List.append_cons]
    exact hpop.base (hcalls.trans hrest.symm) _ hbound
  · rw [hnone] at htop
    cases htop

/-- An answer goes to the call on top, or it is put aside for another one on the stack, or it is
for no call that waits. -/
lemma Sound.reply (h : Sound w log) {m : Message} (hm : m.isAnswer = true)
    (hbound : (issuedIn (log ++ ([.took m (HasHeap.heap w.state)] ++
      (w.replyEvents m).map .event))).length ≤ 2 ^ 64) :
    Sound (w.takeReply m) (log ++ ([.took m (HasHeap.heap w.state)] ++
      (w.replyEvents m).map .event)) := by
  have hother (a : CallId) (hne : a ≠ m.id) (e : Event HH WH) :
      [.took m (HasHeap.heap w.state), .event e].filterMap (Heard.answerTo? a) = [] := by
    simp [Heard.answerTo?, hne.symm]
  -- what is heard of the answer before its call goes on
  have htaken : m.id ∈ w.callIds → ∀ e : Event HH WH, (m, HasHeap.heap w.state) ∈
      repliesTo m.id (log ++ [.took m (HasHeap.heap w.state), .event e]) := by
    intro hid e
    rw [repliesTo_append (h.accounts.issued hid)]
    exact List.mem_append_right _ (by simp [Heard.answerTo?, hm])
  have hsame := h.accounts.outstanding
  rcases reply_cases HH w m with ⟨o, h', ho, htop, heq, hevents⟩ |
    ⟨o, h', ho, hwaits, heq, hevents⟩ | ⟨hlost, heq, hevents⟩
  · rw [hevents] at hbound
    rw [heq, hevents]
    rw [top?_eq] at htop
    obtain ⟨rest, hcalls⟩ := List.head?_eq_some_iff.1 htop
    have hid : m.id ∈ w.callIds := by
      rw [hcalls]
      exact List.mem_cons_self
    have hdistinct := h.accounts.distinct
    rw [hcalls] at hdistinct
    have haccounts : Accounts w.endpoint w.link w.callIds
        (log ++ [.took m (HasHeap.heap w.state),
          .event (.ofWorker m.id (.received (HasHeap.heap w.state) o))]) :=
      h.accounts.append (by simp [Heard.changesCalls, CallEvent.isIssued, CallEvent.isCompleted])
    have hsplit (more : List (Heard HH WH)) :
        log ++ ([.took m (HasHeap.heap w.state)] ++
          .event (.ofWorker m.id (.received (HasHeap.heap w.state) o)) :: more) =
        log ++ [.took m (HasHeap.heap w.state),
          .event (.ofWorker m.id (.received (HasHeap.heap w.state) o))] ++ more := by
      simp
    rw [List.map_cons, hsplit] at hbound ⊢
    refine Sound.resume (w := { w with state := HasHeap.setHeap h' w.state }) haccounts hcalls
      (fun a ha => ?_) (.answered (htaken hid _) (Message.carries_of_outcome ho)) hbound
    have hne : a ≠ m.id := fun heq => (List.nodup_cons.1 hdistinct).1 (heq ▸ ha)
    have hin : a ∈ w.callIds := by
      rw [hcalls]
      exact List.mem_cons_of_mem _ ha
    exact (h.kept a hin).append (h.accounts.issued hin) (hother a hne _)
  · rw [heq, hevents]
    rw [hsame] at hwaits
    constructor
    · refine (h.accounts.append ?_).putAside hwaits o
      simp [Heard.changesCalls, CallEvent.isIssued, CallEvent.isCompleted]
    · intro a ha
      by_cases hself : a = m.id
      · rw [hself]
        exact .aside (aside?_putAside_self o) (htaken hwaits _) (Message.carries_of_outcome ho)
      · exact ((h.kept a ha).append (h.accounts.issued ha) (hother a hself _)).congr
          (aside?_putAside_of_ne hself o)
  · have hout : m.id ∉ w.endpoint.outstanding := by
      obtain ⟨o, h', ho⟩ := Message.exists_outcome hm (HasHeap.heap w.state)
      exact hlost.resolve_left (by simp [ho])
    rw [heq, hevents]
    refine h.append (by simp [Heard.changesCalls]) fun a ha => ?_
    have hne : m.id ≠ a := fun hself => hout (hsame ▸ hself ▸ ha)
    simp [Heard.answerTo?, hne]

/-- A call is served, an answer goes to the call that it bears the number of. -/
lemma Sound.take {ps : WorkerPrograms σ WH} (h : Sound w log) (m : Message)
    (hbound : (issuedIn (log ++ ([.took m (HasHeap.heap w.state)] ++
      (w.takeEvents ps m).map .event))).length ≤ 2 ^ 64) :
    Sound (w.take ps m) (log ++ ([.took m (HasHeap.heap w.state)] ++
      (w.takeEvents ps m).map .event)) := by
  cases m with
  | call a target args =>
    have htaken : Sound w (log ++ [.took (.call a target args) (HasHeap.heap w.state)]) :=
      h.append (by simp [Heard.changesCalls])
        (fun _ _ => by simp [Heard.answerTo?, Message.isAnswer])
    rw [← List.append_assoc] at hbound ⊢
    exact htaken.serve a target args hbound
  | reply a v => exact h.reply rfl hbound
  | fail a e => exact h.reply rfl hbound

/-- When the peer is gone, the call on top of the stack has had no answer. -/
lemma Sound.disconnect (h : Sound w log) (haside : w.top?.bind w.endpoint.aside? = none)
    (hbound : (issuedIn (log ++ ([.ended] ++ w.disconnectEvents.map .event))).length ≤ 2 ^ 64) :
    Sound w.disconnect (log ++ ([.ended] ++ w.disconnectEvents.map .event)) := by
  have hended : Sound w.hungUp (log ++ [.ended]) :=
    (h.append (by simp [Heard.changesCalls]) fun _ _ => rfl).congr rfl rfl rfl rfl
      fun hjoined => ⟨hjoined, rfl⟩
  have hcalls : w.hungUp.callIds = w.callIds := rfl
  rw [← List.append_assoc] at hbound ⊢
  rcases disconnect_cases HH w with ⟨id, rest, hids, heq, hevents⟩ | ⟨hids, heq, hevents⟩
  · have hid : id ∈ w.callIds := by
      rw [hids]
      exact List.mem_cons_self
    have hdue : Due (log ++ [.ended]) id (.error .closed) := by
      refine .closed ?_ (by simp)
      cases h.kept id hid with
      | waiting _ hnone =>
        rw [repliesTo_append (h.accounts.issued hid), hnone]
        rfl
      | aside hsome =>
        rw [top?_eq, hids, List.head?_cons, Option.bind_some, hsome] at haside
        cases haside
    rw [hevents] at hbound
    rw [heq, hevents]
    refine Sound.resume hended.accounts (hcalls.trans hids) (fun a ha => ?_) hdue hbound
    refine hended.kept a ?_
    rw [hcalls, hids]
    exact List.mem_cons_of_mem _ ha
  · have hframes : w.thread.frames = [] :=
      List.map_eq_nil_iff.1 (List.append_eq_nil_iff.1 hids).1
    rw [heq, hevents, List.map_nil, List.append_nil]
    refine hended.congr ?_ rfl rfl rfl fun hjoined => ⟨hjoined, rfl⟩
    rw [hcalls, hids]
    show w.thread.frames.map (·.waiting) ++ [] = []
    rw [hframes]
    rfl

/-- What a move of the thread is, and what is heard of it: an answer that was put aside goes to the
call on top, or the next message is taken, or the queue is found at its end. -/
inductive Moved (ps : WorkerPrograms σ WH) (w : WorkerSide σ WH β) :
    List (Heard HH WH) → WorkerSide σ WH β → Prop where
  | aside {id rest o} (hcalls : w.callIds = id :: rest) (haside : w.endpoint.aside? id = some o) :
      Moved ps w ((w.resumeEvents o).map .event) (w.resumeTop o)
  | taken {m q} (hnone : w.top?.bind w.endpoint.aside? = none)
      (hreceive : w.link.toWorker.receive = .message m q) :
      Moved ps w
        (.took m (HasHeap.heap w.state) ::
          (takeEvents ps { w with link := { w.link with toWorker := q } } m).map .event)
        (take ps { w with link := { w.link with toWorker := q } } m)
  | ended (hnone : w.top?.bind w.endpoint.aside? = none)
      (hreceive : w.link.toWorker.receive = .ended) :
      Moved ps w (.ended :: w.disconnectEvents.map .event) w.disconnect

lemma moved_of_move {ps : WorkerPrograms σ WH} (h : w.move? ps = some w') :
    Moved ps w ((w.heard : List (Heard HH WH)) ++ (w.moveEvents ps).map .event) w' := by
  unfold heard
  obtain ⟨-, ⟨o, haside, rfl, hevents⟩ |
    ⟨hnone, ⟨m, q, hreceive, rfl, hevents⟩ | ⟨hreceive, rfl, hevents⟩⟩⟩ := move_cases HH h
  · simp only [haside, hevents, List.nil_append]
    obtain ⟨id, htop, hsome⟩ := Option.bind_eq_some_iff.1 haside
    rw [top?_eq] at htop
    obtain ⟨rest, hcalls⟩ := List.head?_eq_some_iff.1 htop
    exact .aside hcalls hsome
  · simp only [hnone, hreceive, hevents]
    exact .taken hnone hreceive
  · simp only [hnone, hreceive, hevents]
    exact .ended hnone hreceive

/-- Every move of the thread keeps all calls accounted for. -/
lemma Sound.move {ps : WorkerPrograms σ WH} (h : Sound w log) (hmove : w.move? ps = some w')
    (hbound :
      (issuedIn (log ++ (w.heard ++ (w.moveEvents ps).map .event))).length ≤ 2 ^ 64) :
    Sound w' (log ++ (w.heard ++ (w.moveEvents ps).map .event)) := by
  have hmoved : Moved ps w ((w.heard : List (Heard HH WH)) ++ (w.moveEvents ps).map .event) w' :=
    moved_of_move hmove
  generalize (w.heard : List (Heard HH WH)) ++ (w.moveEvents ps).map .event = more
    at hmoved hbound ⊢
  cases hmoved with
  | aside hcalls haside =>
    have hmem : _ ∈ w.callIds := hcalls ▸ List.mem_cons_self
    -- the answer that was put aside is one that has been taken
    have hdue := (h.kept _ hmem).due haside
    refine Sound.resume h.accounts hcalls (fun a ha => h.kept a ?_) hdue hbound
    rw [hcalls]
    exact List.mem_cons_of_mem _ ha
  | @taken m q hnone hreceive =>
    have htaken : Sound { w with link := { w.link with toWorker := q } } log :=
      h.congr rfl rfl rfl rfl fun hjoined => ⟨hjoined, rfl⟩
    exact htaken.take m hbound
  | ended hnone hreceive => exact h.disconnect hnone hbound

/-! ## Steps and runs -/

omit [HasHeap σ] in
/-- A thread that does not look at its queue has no calls on its stack. -/
lemma callIds_of_not_listening (h : w.isListening = false) :
    w.thread.frames = [] ∧ w.callIds = [] := by
  unfold isListening at h
  unfold callIds
  cases hframes : w.thread.frames with
  | cons f rest =>
    rw [hframes] at h
    cases h
  | nil =>
    rw [hframes] at h
    cases hbase : w.thread.base with
    | waiting =>
      rw [hbase] at h
      cases h
    | _ => exact ⟨rfl, rfl⟩

/-- Whatever happens on the worker's side keeps all calls accounted for. -/
lemma Sound.step {ps : WorkerPrograms σ WH} (h : Sound w log) (step : ThreadStep ps w more w')
    (hbound : (issuedIn (log ++ more)).length ≤ 2 ^ 64) : Sound w' (log ++ more) := by
  cases step with
  | move hmove => exact h.move hmove hbound
  | start hrest task => exact h.base (callIds_of_not_listening hrest).2 _ hbound
  | serve hrest =>
    obtain ⟨hframes, hcalls⟩ := callIds_of_not_listening hrest
    rw [List.append_nil]
    refine h.congr ?_ rfl rfl rfl fun hjoined => ⟨hjoined, rfl⟩
    rw [hcalls]
    show w.thread.frames.map (·.waiting) ++ [] = []
    rw [hframes]
    rfl
  | close =>
    rw [List.append_nil]
    unfold close
    by_cases hclosed : w.endpoint.closed = true
    · rw [if_pos hclosed]
      exact h
    · rw [if_neg hclosed]
      exact h.congr rfl rfl rfl rfl fun hjoined => nomatch hjoined.sending
  | manage hmanaged =>
    obtain ⟨hnext, -, houtstanding, hstash⟩ := hmanaged.unchanged
    rw [List.append_nil]
    exact h.congr rfl houtstanding hmanaged.depth hstash fun hjoined => ⟨hjoined, hnext⟩
  | work s =>
    rw [List.append_nil]
    exact h.congr rfl rfl rfl rfl fun hjoined => ⟨hjoined, rfl⟩

lemma PeerRun.sound {ps : WorkerPrograms σ WH} {name : String} {state : σ}
    (run : PeerRun ps name state w log) (hbound : (issuedIn log).length ≤ 2 ^ 64) :
    Sound w log := by
  induction run with
  | new =>
    refine ⟨⟨rfl, List.nodup_nil, rfl, ?_, .nil, rfl, fun _ => rfl, told_nil _⟩, ?_⟩
    · exact fun entry hentry => absurd hentry List.not_mem_nil
    · exact fun id hid => absurd hid List.not_mem_nil
  | step before step ih => exact (ih (bound_of_append hbound)).step step hbound
  | peer before hpeer ih =>
    exact (ih hbound).congr rfl rfl rfl rfl fun hjoined => ⟨hpeer.joined hjoined, rfl⟩

/-- What holds of the calls of a worker thread at any moment, given what it has heard so far. -/
structure Accounted (ps : WorkerPrograms σ WH) (w : WorkerSide σ WH β)
    (log : List (Heard HH WH)) : Prop where
  /-- the calls that are outstanding are those on the stack, each of them once -/
  outstanding : w.endpoint.outstanding = w.callIds ∧ w.callIds.Nodup
  /-- an answer is put aside only for a call on the stack -/
  stash : ∀ entry ∈ w.endpoint.stash, entry.1 ∈ w.endpoint.outstanding
  depth : w.endpoint.depth = w.callIds.length
  /-- when the outermost call has returned, nothing is left -/
  cleared : w.callIds = [] →
    w.endpoint.outstanding = [] ∧ w.endpoint.stash = [] ∧ w.endpoint.depth = 0
  /-- an answer to any other call is lost on the thread, whatever the state of the link -/
  stranger : ∀ l m, m.isAnswer = true → m.id ∉ w.endpoint.outstanding →
    take ps { w with link := l } m = { w with link := l } ∧
      takeEvents ps { w with link := l } m = ([] : List (Event HH WH))
  /-- every call that was made is on the stack or has returned, and that once -/
  once : (returnedIn log ++ w.callIds).Perm (issuedIn log) ∧ (issuedIn log).Nodup
  /-- a call has returned what one of the answers to it carries, or, if the peer was gone before
  any of them, that the channel is closed -/
  returned : ∀ pre post id o, log = pre ++ .event (.ofWorker id (.completed o)) :: post →
    Due pre id o ∧ (repliesTo id pre ≠ [] → o ≠ .error .closed)

lemma takeReply_stranger {m : Message} (hsame : w.endpoint.outstanding = w.callIds)
    (hid : m.id ∉ w.endpoint.outstanding) :
    w.takeReply m = w ∧ w.replyEvents m = ([] : List (Event HH WH)) := by
  rcases reply_cases HH w m with ⟨o, h', -, htop, -⟩ | ⟨o, h', -, hwaits, -⟩ | ⟨-, hsame⟩
  · rw [top?_eq] at htop
    exact absurd (hsame ▸ List.mem_of_head? htop) hid
  · exact absurd hwaits hid
  · exact hsame

omit [HasHeap σ] in
lemma Due.ne_closed {o : CallOutcome} (h : Due log id o) (hreplies : repliesTo id log ≠ []) :
    o ≠ .error .closed := by
  cases h with
  | answered hmem hcarries => cases hcarries <;> simp
  | closed hnone => exact absurd hnone hreplies

/-- Against whatever peer, at every moment of every run in which no number is given twice, all calls
of the worker are accounted for: those on the stack are the outstanding ones, and each that has
returned has got an answer of its own, if one has come before the peer went away. -/
theorem PeerRun.stack_accounted {ps : WorkerPrograms σ WH} {name : String} {state : σ}
    (run : PeerRun ps name state w log) (hbound : (issuedIn log).length ≤ 2 ^ 64) :
    Accounted ps w log := by
  have hsound := (run.sound hbound).accounts
  refine ⟨⟨hsound.outstanding, hsound.distinct⟩, ?_, hsound.depth, ?_, ?_, ⟨hsound.once, ?_⟩, ?_⟩
  · rw [hsound.outstanding]
    exact hsound.stash
  · intro hempty
    refine ⟨hsound.outstanding.trans hempty, ?_, ?_⟩
    · rw [List.eq_nil_iff_forall_not_mem]
      intro entry hentry
      have hid := hsound.stash entry hentry
      rw [hempty] at hid
      exact List.not_mem_nil hid
    · rw [hsound.depth, hempty]
      rfl
  · intro l m hm hid
    cases m with
    | call => cases hm
    | reply a v => exact takeReply_stranger (m := .reply a v) hsound.outstanding hid
    | fail a e => exact takeReply_stranger (m := .fail a e) hsound.outstanding hid
  · exact hsound.numbered.nodup hbound
  · intro pre post id o heq
    have hdue : Due pre id o := hsound.returned pre _ post heq
    exact ⟨hdue, hdue.ne_closed⟩

/-! ## A call within a call -/

/-- A worker whose handlers call the host before they answer null. -/
def askingPrograms : WorkerPrograms Heap Unit where
  handler _ _ := fun s => .ask ⟨.method "b", []⟩ s fun _ s => .done (.ok .null) s
  function _ _ := pure (.ok .null)

/-- An answer that carries an integer. -/
def intReply (id : CallId) (n : Int64) : Message :=
  .reply id ⟨.int n, []⟩

/-- A worker of this kind that waits for the given calls, with what it has put aside for them. -/
def asking (next : UInt64) (calls : List CallId) (stash : List (CallId × CallOutcome))
    (frames : List (Frame Heap)) (base : Base Heap Unit) (inbox sent : List Message) :
    WorkerSide Heap Unit Unit :=
  ⟨⟨⟨"worker", next, false, calls.length, ⟨[("h", ())]⟩, .empty, calls, stash⟩, frames, base⟩,
    ⟨⟨inbox, true, true⟩, ⟨sent, true, true⟩⟩, .empty⟩

/-- The call that such a worker takes, for the handler that calls in turn. -/
def knock : Message :=
  .call ⟨9⟩ (.method "h") ⟨.null, []⟩

/-- What waits while the handler does. -/
def askingFrame : Frame Heap :=
  ⟨⟨2⟩, ⟨9⟩, fun _ s => .done (.ok .null) s⟩

def heardKnock : List (Heard Unit Unit) :=
  [.took knock .empty,
    .event (.ofHost ⟨9⟩ (.served (.method "h") ⟨.null, []⟩ .empty (some (.inl ())))),
    .event (.ofHost ⟨9⟩ (.ran (.inl ()) [] .empty)),
    .event (.ofWorker ⟨2⟩ (.issued (.method "b") [] .empty))]

/-- What is heard when an integer comes for a call that waits. -/
def heardInt (id : CallId) (n : Int64) : List (Heard Unit Unit) :=
  [.took (intReply id n) .empty, .event (.ofWorker id (.received .empty (.ok (.int n))))]

/-- The handler sends its call and waits for it. -/
lemma step_knock {args : Wire} (hpack : packArgs .empty [] = .ok args)
    (resume : CallOutcome → Heap → WorkerStep Heap Unit) (sent : List Message) :
    ThreadStep askingPrograms (asking 2 [⟨1⟩] [] [] (.waiting ⟨1⟩ resume) [knock] sent) heardKnock
      (asking 3 [⟨2⟩, ⟨1⟩] [] [askingFrame] (.waiting ⟨1⟩ resume) []
        (sent ++ [.call ⟨2⟩ (.method "b") args])) := by
  let w := asking 2 [⟨1⟩] [] [] (.waiting ⟨1⟩ resume) [] sent
  have hcall : w.startCall ⟨.method "b", []⟩ = (.ok ⟨2⟩, w.issue (.method "b") args) :=
    startCall_eq_issue rfl ⟨rfl, rfl⟩ hpack
  have hrun : w.runStep (askingPrograms.handler () [] .empty) =
      (.inr ⟨⟨2⟩, ⟨.method "b", []⟩, askingFrame.resume⟩, w.issue (.method "b") args) := by
    simp only [askingPrograms, runStep]
    rw [show startCall { w with state := Heap.empty } _ = _ from hcall]
    rfl
  let w' := asking 2 [⟨1⟩] [] [] (.waiting ⟨1⟩ resume) [knock] sent
  have hmove : w'.move? askingPrograms =
      some (w.runHandler ⟨9⟩ (askingPrograms.handler () [] .empty)) := rfl
  have hevents : (w'.moveEvents askingPrograms : List (Event Unit Unit)) =
        [.ofHost ⟨9⟩ (.served (.method "h") ⟨.null, []⟩ .empty (some (.inl ()))),
          .ofHost ⟨9⟩ (.ran (.inl ()) [] .empty)] ++
        w.handlerEvents ⟨9⟩ (askingPrograms.handler () [] .empty) := rfl
  have hstep : ThreadStep askingPrograms _ (_ : List (Heard Unit Unit)) _ := .move hmove
  rw [hevents, handlerEvents, runHandler, hrun] at hstep
  exact hstep

/-- The first call of the thread waits at the bottom of the stack, and on it that of the handler. -/
def knocked (args : Wire) (stash : List (CallId × CallOutcome)) : WorkerSide Heap Unit Unit :=
  asking 3 [⟨2⟩, ⟨1⟩] stash [askingFrame] (.waiting ⟨1⟩ fun _ s => .done () s) []
    [.call ⟨1⟩ (.method "ping") args, .call ⟨2⟩ (.method "b") args]

/-- The handler has answered, and the first call still waits. -/
def answered (args : Wire) (stash : List (CallId × CallOutcome)) : WorkerSide Heap Unit Unit :=
  asking 3 [⟨1⟩] stash [] (.waiting ⟨1⟩ fun _ s => .done () s) []
    [.call ⟨1⟩ (.method "ping") args, .call ⟨2⟩ (.method "b") args, .reply ⟨9⟩ ⟨.null, []⟩]

/-- What is heard when an integer comes for the call of the handler. -/
def heardInner (n : Int64) : List (Heard Unit Unit) :=
  heardInt ⟨2⟩ n ++ [.event (.ofWorker ⟨2⟩ (.completed (.ok (.int n)))),
    .event (.ofHost ⟨9⟩ (.answered (.ok .null) .empty))]

lemma run_knocked {args : Wire} (hpack : packArgs .empty [] = .ok args) :
    PeerRun askingPrograms "worker" .empty (knocked args [])
      (.event (.ofWorker ⟨1⟩ (.issued (.method "ping") [] .empty)) :: heardKnock) := by
  have hopen : (asking 1 [] [] [] .idle [] []).Open := ⟨rfl, rfl, rfl, rfl, rfl⟩
  have hregistered : PeerRun askingPrograms "worker" .empty (asking 1 [] [] [] .idle [] [])
      ([] : List (Heard Unit Unit)) :=
    .step .new (.manage (.register (show WorkerEndpoint.register _ "h" () = _ from rfl)))
  have hstarted := hregistered.step (.start rfl Pair.ping)
  rw [Pair.baseEvents_ping hopen hpack, Pair.start_ping hopen hpack] at hstarted
  exact (hstarted.peer (.send (m := knock) rfl)).step (step_knock hpack _ _)

/-- A handler calls while the thread waits for a call of its own. An answer to a call that was never
made is lost, that to the outer call is put aside until the inner one has returned, and in the end
nothing is left. -/
theorem PeerRun.stack_accounted_stranger :
    ∃ (w w' : WorkerSide Heap Unit Unit) (log more : List (Heard Unit Unit)),
      PeerRun askingPrograms "worker" .empty w log ∧ w.callIds = [⟨2⟩, ⟨1⟩] ∧
      w.endpoint.stash = [(⟨1⟩, .ok (.int 10))] ∧ Accounted askingPrograms w log ∧
      PeerRun askingPrograms "worker" .empty w' (log ++ more) ∧
      (issuedIn (log ++ more)).length ≤ 2 ^ 64 ∧ returnedIn (log ++ more) = [⟨2⟩, ⟨1⟩] ∧
      Accounted askingPrograms w' (log ++ more) ∧ w'.endpoint.stash = [] := by
  obtain ⟨args, hpack⟩ := Pair.exists_packArgs_nil .empty
  have hserved := run_knocked hpack
  have hstranger : PeerRun askingPrograms "worker" .empty (knocked args []) (_ ++ _) :=
    (hserved.peer (.send (m := .fail ⟨7⟩ ⟨"Error", "none"⟩) rfl)).step (.move rfl)
  have haside : PeerRun askingPrograms "worker" .empty (knocked args [(⟨1⟩, .ok (.int 10))])
      (_ ++ heardInt ⟨1⟩ 10) :=
    (hstranger.peer (.send (m := intReply ⟨1⟩ 10) rfl)).step (.move rfl)
  have hinner : PeerRun askingPrograms "worker" .empty (answered args [(⟨1⟩, .ok (.int 10))])
      (_ ++ heardInner 30) :=
    (haside.peer (.send (m := intReply ⟨2⟩ 30) rfl)).step (.move rfl)
  have houter := hinner.step (.move rfl)
  rw [List.append_assoc _ (heardInner 30)] at houter
  refine ⟨_, _, _, _, haside, rfl, rfl, haside.stack_accounted ?now, houter, ?bound, rfl,
    houter.stack_accounted ?bound, rfl⟩
  case now =>
    rw [show issuedIn _ = [(⟨1⟩ : CallId), ⟨2⟩] from rfl]
    norm_num
  case bound =>
    rw [show issuedIn _ = [(⟨1⟩ : CallId), ⟨2⟩] from rfl]
    norm_num

end WorkerSide
end WorkerHost
