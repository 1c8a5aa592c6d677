import Mathlib.Data.List.TakeWhile
import WorkerHost.Proofs.Channel.Handlers
import WorkerHost.Proofs.Channel.Pair

/-!
# A worker thread against any peer

Nothing is assumed of whoever holds the host's end of a link: it sends what it likes, as often as it
likes and under whatever numbers, and it goes away when it likes. What the thread takes off its
queue stands in the log beside what happens to its calls.

* `WorkerSide.ThreadStep`, `WorkerSide.PeerRun`: what can happen at the worker's end;
* `repliesTo`: the answers that a thread has taken for a call since it was made.
-/

namespace WorkerHost

/-! ## Answers -/

/-- Whether a message answers a call. -/
def Message.isAnswer : Message → Bool
  | .call .. => false
  | _ => true

/-- The outcome that an answer carries into a heap, and the heap that it lives in: its value, or
that it can not be read, or the failure. -/
inductive Message.Carries (h : Heap) : Message → CallOutcome → Heap → Prop where
  | value {id w v h'} (hdecode : Wire.decode h w = .ok (v, h')) : Carries h (.reply id w) (.ok v) h'
  | unreadable {id w e} (hdecode : Wire.decode h w = .error e) :
      Carries h (.reply id w) (.error (.codec e)) h
  | failure (id : CallId) (e : RemoteError) : Carries h (.fail id e) (.error (.remote e)) h

lemma Message.carries_of_outcome {h h' : Heap} {m : Message} {o : CallOutcome}
    (ho : m.outcome? h = some (o, h')) : m.Carries h o h' := by
  cases m with
  | call => cases ho
  | reply id w =>
    simp only [outcome?] at ho
    cases hdecode : Wire.decode h w with
    | ok read =>
      rw [hdecode] at ho
      cases ho
      exact .value hdecode
    | error e =>
      rw [hdecode] at ho
      cases ho
      exact .unreadable hdecode
  | fail id e =>
    cases ho
    exact .failure id e

/-- Every answer has an outcome, in whatever heap. -/
lemma Message.exists_outcome {m : Message} (hm : m.isAnswer = true) (h : Heap) :
    ∃ o h', m.outcome? h = some (o, h') := by
  cases m with
  | call => cases hm
  | reply id w =>
    simp only [outcome?]
    split
    · exact ⟨_, _, rfl⟩
    · exact ⟨_, _, rfl⟩
  | fail id e => exact ⟨_, _, rfl⟩

/-! ## Links -/

/-- What whoever holds the host's end of a link can do to it. -/
inductive Link.Handled (l : Link) : Link → Prop where
  | send {m q} (h : l.toWorker.send? m = some q) : Handled l { l with toWorker := q }
  | hangUp : Handled l { l with toWorker := l.toWorker.dropSender }
  | take {m q} (h : l.toHost.receive = .message m q) : Handled l { l with toHost := q }
  | leave : Handled l { l with toHost := l.toHost.dropReceiver }

/-- An end of the queue to the host that is gone does not come back. -/
lemma Link.Handled.joined {l l' : Link} (h : l.Handled l') (hjoined : l'.toHost.Joined) :
    l.toHost.Joined := by
  cases h with
  | send => exact hjoined
  | hangUp => exact hjoined
  | @take m q hreceive =>
    obtain ⟨-, hsending, hreceiving⟩ := Queue.eq_of_receive hreceive
    exact ⟨hsending ▸ hjoined.sending, hreceiving ▸ hjoined.receiving⟩
  | leave => cases hjoined.receiving

/-- Managing handlers and handles changes no call that waits. -/
lemma WorkerEndpoint.Managed.depth {H : Type} {e e' : WorkerEndpoint H} (h : e.Managed e') :
    e'.depth = e.depth := by
  cases h with
  | register h =>
    obtain ⟨hs, -, h⟩ := bind_eq_ok.1 h
    cases h
    rfl
  | unregister => rfl
  | expose => rfl
  | release => rfl

/-! ## Numbers -/

/-- Numbers that are given one after another, from the first on. -/
def Numbered (ids : List CallId) : Prop :=
  ids = (List.range ids.length).map callNumber

lemma Numbered.push {ids : List CallId} (h : Numbered ids) {id : CallId}
    (hid : id = callNumber ids.length) : Numbered (ids ++ [id]) := by
  unfold Numbered at h ⊢
  rw [List.length_append, List.length_singleton, List.range_succ, List.map_append, ← h, hid]
  rfl

lemma Numbered.nodup {ids : List CallId} (h : Numbered ids) (hbound : ids.length ≤ 2 ^ 64) :
    ids.Nodup := by
  rw [h]
  refine List.Nodup.map_on (fun k hk l hl heq => ?_) List.nodup_range
  rw [List.mem_range] at hk hl
  exact callNumber_inj (by omega) (by omega) heq

/-- As long as the numbers suffice, the next one is new. -/
lemma Numbered.next_not_mem {ids : List CallId} (h : Numbered ids) (hbound : ids.length < 2 ^ 64) :
    callNumber ids.length ∉ ids := by
  intro hmem
  rw [h, List.length_map, List.length_range] at hmem
  obtain ⟨k, hk, heq⟩ := List.mem_map.1 hmem
  have hlt := List.mem_range.1 hk
  have hsame := callNumber_inj (by omega) hbound heq
  omega

/-- Nothing is taken out of numbers by taking out another. -/
lemma filter_ne_of_not_mem {ids : List CallId} {id : CallId} (h : id ∉ ids) :
    ids.filter (· != id) = ids := by
  rw [List.filter_eq_self]
  intro a ha
  rw [bne_iff_ne]
  exact fun heq => h (heq ▸ ha)

/-! ## Logs -/

section
variable {X Y : Type} {start : X → Bool} {pick : X → Option Y} {log more : List X}

/-- What is picked from a log from a certain entry on. -/
def since (start : X → Bool) (pick : X → Option Y) (log : List X) : List Y :=
  (log.dropWhile fun x => !start x).filterMap pick

lemma since_append_of_mem (h : ∃ x ∈ log, start x = true) :
    since start pick (log ++ more) = since start pick log ++ more.filterMap pick := by
  have hfound : (log.dropWhile fun x => !start x) ≠ [] := by
    intro hnil
    rw [List.dropWhile_eq_nil_iff] at hnil
    obtain ⟨x, hx, hstart⟩ := h
    have hnot := hnil x hx
    rw [hstart] at hnot
    cases hnot
  unfold since
  rw [List.dropWhile_append, if_neg (by simpa using hfound), List.filterMap_append]

lemma since_append_of_not_mem (h : ¬ ∃ x ∈ log, start x = true) :
    since start pick (log ++ more) = since start pick more := by
  have hnone : (log.dropWhile fun x => !start x) = [] := by
    rw [List.dropWhile_eq_nil_iff]
    intro x hx
    rw [Bool.not_eq_true']
    by_contra hstart
    exact h ⟨x, hx, by simpa using hstart⟩
  unfold since
  rw [List.dropWhile_append, if_pos (by simpa using hnone)]

/-- Every entry of a log is right by what stands before it. -/
def Told (right : List X → X → Prop) (log : List X) : Prop :=
  ∀ pre x post, log = pre ++ x :: post → right pre x

lemma told_nil (right : List X → X → Prop) : Told right [] := by
  intro pre x post heq
  simp at heq

lemma Told.append {right : List X → X → Prop} (h : Told right log)
    (hmore : Told (fun pre => right (log ++ pre)) more) : Told right (log ++ more) := by
  intro pre x post heq
  rcases append_eq_append_cons heq with ⟨rest, hlog, -⟩ | ⟨skipped, hpre, hback⟩
  · exact h pre x rest hlog
  · rw [hpre]
    exact hmore skipped x post hback

lemma Told.left {right : List X → X → Prop} (h : Told right (log ++ more)) : Told right log := by
  intro pre x post heq
  refine h pre x (post ++ more) ?_
  rw [heq, List.append_assoc]
  rfl

lemma Told.cons {right : List X → X → Prop} {x : X} (h : right [] x)
    (hmore : Told (fun pre => right (x :: pre)) more) : Told right (x :: more) := by
  intro pre y post heq
  cases pre with
  | nil =>
    obtain ⟨rfl, -⟩ := List.cons.inj heq
    exact h
  | cons z zs =>
    obtain ⟨rfl, hrest⟩ := List.cons.inj heq
    exact hmore zs y post hrest

lemma told_singleton {right : List X → X → Prop} {x : X} (h : right [] x) : Told right [x] :=
  .cons h (told_nil _)

/-- Where nothing is to be picked, nothing is picked. -/
lemma since_eq_nil (h : log.filterMap pick = []) : since start pick log = [] := by
  rw [List.filterMap_eq_nil_iff] at h
  unfold since
  rw [List.filterMap_eq_nil_iff]
  exact fun x hx => h x ((List.dropWhile_sublist _).subset hx)

end

/-! ## What a thread hears -/

/-- What a worker thread takes off its queue, and what happens to calls. -/
inductive Heard (HH WH : Type) where
  /-- a message, which it reads in a heap -/
  | took (m : Message) (heap : Heap)
  /-- that the host's end is gone and there are no more messages -/
  | ended
  | event (e : Event HH WH)

namespace Heard
variable {HH WH : Type}

def event? : Heard HH WH → Option (Event HH WH)
  | event e => some e
  | _ => none

/-- Whether it is that a call is made. -/
def issues (id : CallId) : Heard HH WH → Bool
  | event (.ofWorker a e) => a == id && e.isIssued
  | _ => false

/-- The answer to a call that is taken, with the heap that it is read in. -/
def answerTo? (id : CallId) : Heard HH WH → Option (Message × Heap)
  | took m h => if m.isAnswer = true ∧ m.id = id then some (m, h) else none
  | _ => none

end Heard

section
variable {K : Type} {log more : List (CallId × CallEvent K)}

/-- The calls that are over, in the order of their ends. -/
def completedIds (log : List (CallId × CallEvent K)) : List CallId :=
  (log.filter (·.2.isCompleted)).map (·.1)

@[simp] lemma completedIds_append :
    completedIds (log ++ more) = completedIds log ++ completedIds more := by
  simp [completedIds]

end

section
variable {HH WH : Type} {log more : List (Heard HH WH)} {id : CallId}

/-- The events of the calls of the thread. -/
def callLog (log : List (Heard HH WH)) : List (CallId × CallEvent HH) :=
  workerLog (log.filterMap Heard.event?)

@[simp] lemma callLog_append : callLog (log ++ more) = callLog log ++ callLog more := by
  rw [callLog, List.filterMap_append, workerLog_append]
  rfl

lemma mem_callLog {e : CallEvent HH} : (id, e) ∈ callLog log ↔ .event (.ofWorker id e) ∈ log := by
  simp only [callLog, workerLog, List.mem_filterMap]
  constructor
  · rintro ⟨event, ⟨x, hx, hevent⟩, hworker⟩
    cases x <;> cases hevent
    cases event <;> cases hworker
    exact hx
  · intro h
    exact ⟨_, ⟨_, h, rfl⟩, rfl⟩

/-- The calls that the thread has made, in their order. -/
def issuedIn (log : List (Heard HH WH)) : List CallId :=
  issuedIds (callLog log)

/-- The calls that have returned, in the order of returning. -/
def returnedIn (log : List (Heard HH WH)) : List CallId :=
  completedIds (callLog log)

@[simp] lemma issuedIn_append : issuedIn (log ++ more) = issuedIn log ++ issuedIn more := by
  rw [issuedIn, callLog_append, issuedIds_append]
  rfl

@[simp] lemma returnedIn_append :
    returnedIn (log ++ more) = returnedIn log ++ returnedIn more := by
  rw [returnedIn, callLog_append, completedIds_append]
  rfl

/-- The answers to a call that the thread has taken since it made the call, with the heaps that it
has read them in. -/
def repliesTo (id : CallId) (log : List (Heard HH WH)) : List (Message × Heap) :=
  since (Heard.issues id) (Heard.answerTo? id) log

lemma mem_issuedIn : id ∈ issuedIn log ↔ ∃ x ∈ log, x.issues id = true := by
  rw [issuedIn, issuedIds, List.mem_map]
  constructor
  · rintro ⟨⟨a, e⟩, hmem, rfl⟩
    obtain ⟨hmem, hissued⟩ := List.mem_filter.1 hmem
    exact ⟨_, mem_callLog.1 hmem, by simpa [Heard.issues] using hissued⟩
  · rintro ⟨x, hx, hissues⟩
    cases x with
    | took => cases hissues
    | ended => cases hissues
    | event e =>
      cases e with
      | ofHost => cases hissues
      | ofWorker a e =>
        obtain ⟨rfl, he⟩ : a = id ∧ e.isIssued = true := by simpa [Heard.issues] using hissues
        exact ⟨(a, e), List.mem_filter.2 ⟨mem_callLog.2 hx, he⟩, rfl⟩

/-- A call that has been made goes on collecting answers. -/
lemma repliesTo_append (hid : id ∈ issuedIn log) :
    repliesTo id (log ++ more) = repliesTo id log ++ more.filterMap (Heard.answerTo? id) :=
  since_append_of_mem (mem_issuedIn.1 hid)

/-- What is taken before a call is made is no answer to it. -/
lemma repliesTo_of_not_issued (hid : id ∉ issuedIn log) :
    repliesTo id (log ++ more) = repliesTo id more :=
  since_append_of_not_mem (mt mem_issuedIn.2 hid)

end

/-! ## Steps -/

namespace WorkerSide
variable {σ HH WH β : Type} [HasHeap σ]

/-- What the next move takes off the queue. -/
def heard (w : WorkerSide σ WH β) : List (Heard HH WH) :=
  match w.top?.bind w.endpoint.aside? with
  | some _ => []
  | none =>
    match w.link.toWorker.receive with
    | .message m _ => [.took m (HasHeap.heap w.state)]
    | .ended => [.ended]
    | .waiting => []

/-- What can happen on the worker's side, and what the thread hears of it. -/
inductive ThreadStep (ps : WorkerPrograms σ WH) :
    WorkerSide σ WH β → List (Heard HH WH) → WorkerSide σ WH β → Prop where
  /-- the thread moves -/
  | move {w w'} (h : w.move? ps = some w') :
      ThreadStep ps w (w.heard ++ (w.moveEvents ps).map .event) w'
  /-- the thread starts a computation of its own -/
  | start {w} (h : w.isListening = false) (task : WorkerTask σ β) :
      ThreadStep ps w ((w.baseEvents (task w.state)).map .event) (w.start task)
  /-- the thread starts to serve -/
  | serve {w} (h : w.isListening = false) :
      ThreadStep ps w [] { w with thread := { w.thread with base := .serving } }
  | close {w} : ThreadStep ps w [] w.close
  | manage {w e} (h : w.endpoint.Managed e) : ThreadStep ps w [] (w.setEndpoint e)
  /-- whatever else goes on works on the state -/
  | work {w} (s : σ) : ThreadStep ps w [] { w with state := s }

/-- What happens from a new end on, one step after another, while whoever holds the other end does
what it likes. -/
inductive PeerRun (ps : WorkerPrograms σ WH) (name : String) (state : σ) :
    WorkerSide σ WH β → List (Heard HH WH) → Prop where
  | new : PeerRun ps name state ⟨⟨.new name, [], .idle⟩, .new, state⟩ []
  | step {w log more w'} (before : PeerRun ps name state w log) (h : ThreadStep ps w more w') :
      PeerRun ps name state w' (log ++ more)
  | peer {w log l} (before : PeerRun ps name state w log) (h : w.link.Handled l) :
      PeerRun ps name state { w with link := l } log

end WorkerSide
end WorkerHost
