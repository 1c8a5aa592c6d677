import WorkerHost.Proofs.Channel.Stack

/-!
# Answers that come more than once

A peer may answer a call as often as it likes. What the thread takes for the call on top of its
stack goes to that call, and there it is the first answer. What it takes for a call further down is
put aside in place of what was put aside before, so when that call is on top again, it returns what
the last of its answers carries.

* `Change`: what one step does to the stack, to what is put aside and to the log;
* `Newest`: what is put aside is what the last answer so far carries;
* `PeerRun.last_answer_counts`: so calls return what the last answer before it carries;
* `not_every_first_answer_counts`: that need not be what the first one carries.
-/

namespace WorkerHost

/-- Whether it is that a call returns. -/
def Heard.returns {HH WH : Type} : Heard HH WH → Bool
  | event (.ofWorker _ e) => e.isCompleted
  | _ => false

namespace WorkerSide
variable {σ HH WH β : Type}

/-- The last of the answers to a call carries the outcome. -/
def LastAnswer (log : List (Heard HH WH)) (id : CallId) (o : CallOutcome) : Prop :=
  ∃ earlier m h h', repliesTo id log = earlier ++ [(m, h)] ∧ m.Carries h o h'

/-- The first of the answers to a call carries the outcome. -/
def FirstAnswer (log : List (Heard HH WH)) (id : CallId) (o : CallOutcome) : Prop :=
  ∃ m h h' later, repliesTo id log = (m, h) :: later ∧ m.Carries h o h'

/-- What there is of the answers to a call that waits: none has come, or what the last one carries
is put aside. -/
inductive Newest (e : WorkerEndpoint WH) (log : List (Heard HH WH)) (id : CallId) : Prop
  | waiting (haside : e.aside? id = none) (hnone : repliesTo id log = [])
  | aside {o} (haside : e.aside? id = some o) (hlast : LastAnswer log id o)

/-- A call that returns returns what the last answer to it carries, or there is none. -/
def ReturnedLast (pre : List (Heard HH WH)) : Heard HH WH → Prop
  | .event (.ofWorker id (.completed o)) =>
    LastAnswer pre id o ∨ o = .error .closed ∧ repliesTo id pre = []
  | _ => True

variable {e e' : WorkerEndpoint WH} {ids rest : List CallId} {id : CallId}
  {log more : List (Heard HH WH)} {w w' : WorkerSide σ WH β}

lemma Newest.append (h : Newest e log id) (hid : id ∈ issuedIn log)
    (hother : more.filterMap (Heard.answerTo? id) = []) : Newest e (log ++ more) id := by
  have hreplies : repliesTo id (log ++ more) = repliesTo id log := by
    rw [repliesTo_append hid, hother, List.append_nil]
  cases h with
  | waiting haside hnone => exact .waiting haside (hreplies.trans hnone)
  | aside haside hlast => exact .aside haside (by rwa [LastAnswer, hreplies])

lemma Newest.congr (h : Newest e log id) (haside : e'.aside? id = e.aside? id) :
    Newest e' log id := by
  cases h with
  | waiting hnone hreplies => exact .waiting (haside.trans hnone) hreplies
  | aside hsome hlast => exact .aside (haside.trans hsome) hlast

/-- An answer that is taken is the last one. -/
lemma LastAnswer.of_taken {m : Message} {h h' : Heap} {o : CallOutcome} {e : Event HH WH}
    (hid : m.id ∈ issuedIn log) (hm : m.isAnswer = true) (ho : m.outcome? h = some (o, h')) :
    LastAnswer (log ++ [.took m h, .event e]) m.id o := by
  refine ⟨repliesTo m.id log, m, h, h', ?_, Message.carries_of_outcome ho⟩
  rw [repliesTo_append hid]
  simp [Heard.answerTo?, hm]

lemma told_of_not_returned (f : List (Heard HH WH) → List (Heard HH WH))
    (h : ∀ x ∈ more, x.returns = false) : Told (fun pre => ReturnedLast (f pre)) more := by
  intro pre x post heq
  have hx := h x (by rw [heq]; simp)
  cases x with
  | event e =>
    cases e with
    | ofWorker a e =>
      cases e with
      | completed o => cases hx
      | _ => trivial
    | ofHost => trivial
  | _ => trivial

/-! ## What is put aside -/

section
variable [HasHeap σ]

omit [HasHeap σ] in
lemma stash_post (w : WorkerSide σ WH β) (m : Message) :
    (w.post m).endpoint.stash = w.endpoint.stash := by
  rcases post_cases w m with heq | heq <;> rw [heq]
  rfl

variable (HH) in
/-- A handler's computation puts nothing aside, and no call returns by it. -/
lemma stash_runHandler (w : WorkerSide σ WH β) (answering : CallId)
    (step : WorkerStep σ (Except RemoteError Value)) :
    (w.runHandler answering step).endpoint.stash = w.endpoint.stash ∧
      ∀ e ∈ (w.handlerEvents answering step : List (Event HH WH)),
        (Heard.event e).returns = false := by
  unfold runHandler handlerEvents
  have hpassed := w.runStep_passed step
  generalize w.runStep step = r at hpassed
  cases hpassed with
  | ended result n s hnext =>
    refine ⟨stash_post _ _, fun e he => ?_⟩
    rw [List.mem_singleton.1 he]
    rfl
  | blocked call s args resume hopen hjoined hpack =>
    refine ⟨rfl, fun e he => ?_⟩
    rw [List.mem_singleton.1 he]
    rfl

variable (HH) in
lemma stash_runBase (w : WorkerSide σ WH β) (step : WorkerStep σ β) :
    (w.runBase step).endpoint.stash = w.endpoint.stash ∧
      ∀ e ∈ (w.baseEvents step : List (Event HH WH)), (Heard.event e).returns = false := by
  unfold runBase baseEvents
  have hpassed := w.runStep_passed step
  generalize w.runStep step = r at hpassed
  cases hpassed with
  | ended b n s hnext => exact ⟨rfl, fun e he => absurd he List.not_mem_nil⟩
  | blocked call s args resume hopen hjoined hpack =>
    refine ⟨rfl, fun e he => ?_⟩
    rw [List.mem_singleton.1 he]
    rfl

variable (HH) in
lemma stash_serveCall (ps : WorkerPrograms σ WH) (w : WorkerSide σ WH β) (a : CallId)
    (target : Target) (args : Wire) :
    (w.serveCall ps a target args).endpoint.stash = w.endpoint.stash ∧
      ∀ e ∈ (w.serveEvents ps a target args : List (Event HH WH)),
        (Heard.event e).returns = false := by
  rcases serve_cases HH ps w a target args with
    ⟨err, -, heq, hevents⟩ | ⟨callable, args', h', -, heq, hevents⟩
  · rw [heq, hevents]
    exact ⟨stash_post _ _, by simp [Heard.returns]⟩
  · obtain ⟨hstash, hevs⟩ := stash_runHandler HH w a
      (ps.callable callable args' (HasHeap.setHeap h' w.state))
    rw [heq, hevents]
    refine ⟨hstash, fun e he => ?_⟩
    rcases List.mem_append.1 he with he | he
    · rcases List.mem_pair.1 he with rfl | rfl <;> rfl
    · exact hevs e he

variable (HH) in
/-- The call on top of the stack returns, what is put aside for it goes, and no other returns. -/
lemma resumeTop_returns (htop : w.callIds = id :: rest) (o : CallOutcome) :
    (w.resumeTop o).endpoint.stash = w.endpoint.stash.filter (·.1 != id) ∧
      ∃ evs : List (Event HH WH),
        w.resumeEvents o = .ofWorker id (.completed o) :: evs ∧
          ∀ e ∈ evs, (Heard.event e).returns = false := by
  have hpop : w.popTop.endpoint.stash = w.endpoint.stash.filter (·.1 != id) := by
    rw [(popTop_eq htop).2.1]
    rfl
  rcases resume_cases HH w o with ⟨f, others, hframes, heq, hevents⟩ |
    ⟨a, resume, hframes, hbase, heq, hevents⟩ | ⟨hnone, -, -⟩
  · rw [callIds, hframes] at htop
    obtain ⟨rfl, -⟩ := List.cons.inj htop
    obtain ⟨hstash, hevs⟩ := stash_runHandler HH w.popTop f.answering (f.resume o w.state)
    rw [heq]
    exact ⟨hstash.trans hpop, _, hevents, hevs⟩
  · rw [callIds, hframes, hbase] at htop
    obtain ⟨rfl, -⟩ := List.cons.inj htop
    obtain ⟨hstash, hevs⟩ := stash_runBase HH w.popTop (resume o w.state)
    rw [heq]
    exact ⟨hstash.trans hpop, _, hevents, hevs⟩
  · rw [hnone] at htop
    cases htop

/-! ## Steps -/

/-- How the call on top of the stack gets what it returns: it was put aside, or it comes with the
next message, or that is that there are no more. -/
inductive Gets (w : WorkerSide σ WH β) (id : CallId) : List (Heard HH WH) → CallOutcome → Prop where
  | aside {o} (haside : w.endpoint.aside? id = some o) : Gets w id [] o
  | taken {m o h'} (hnone : w.endpoint.aside? id = none) (hm : m.isAnswer = true) (hid : m.id = id)
      (ho : m.outcome? (HasHeap.heap w.state) = some (o, h')) :
      Gets w id [.took m (HasHeap.heap w.state),
        .event (.ofWorker m.id (.received (HasHeap.heap w.state) o))] o
  | ended (hnone : w.endpoint.aside? id = none) : Gets w id [.ended] (.error .closed)

/-- What a step does to the calls on the stack and to what is put aside for them. -/
inductive Change (w : WorkerSide σ WH β) : List (Heard HH WH) → WorkerSide σ WH β → Prop where
  /-- nothing that is heard is for a call on the stack -/
  | other (front : List (Heard HH WH)) (evs : List (Event HH WH)) {w'}
      (hfront : ∀ x ∈ front, x.changesCalls = false)
      (hanswers : ∀ id ∈ w.callIds, front.filterMap (Heard.answerTo? id) = [])
      (hevs : ∀ e ∈ evs, (Heard.event e).returns = false)
      (hstash : w'.endpoint.stash = w.endpoint.stash) : Change w (front ++ evs.map .event) w'
  /-- an answer for a call further down is put aside -/
  | aside {m o h' w'} (hm : m.isAnswer = true) (hid : m.id ∈ w.callIds)
      (ho : m.outcome? (HasHeap.heap w.state) = some (o, h'))
      (hstash : w'.endpoint.stash = (w.endpoint.putAside m.id o).stash) :
      Change w [.took m (HasHeap.heap w.state),
        .event (.ofWorker m.id (.received (HasHeap.heap w.state) o))] w'
  /-- the call on top returns -/
  | returns (front : List (Heard HH WH)) (evs : List (Event HH WH)) {id rest o w'}
      (htop : w.callIds = id :: rest) (hgets : Gets w id front o)
      (hevs : ∀ e ∈ evs, (Heard.event e).returns = false)
      (hstash : w'.endpoint.stash = w.endpoint.stash.filter (·.1 != id)) :
      Change w (front ++ .event (.ofWorker id (.completed o)) :: evs.map .event) w'

omit [HasHeap σ] in
lemma Change.silent [HasHeap σ] (hstash : w'.endpoint.stash = w.endpoint.stash) :
    Change w ([] : List (Heard HH WH)) w' :=
  .other [] [] (by simp) (by simp) (by simp) hstash

/-- The link has no part in it. -/
lemma Change.of_link {l : Link} (h : Change { w with link := l } more w') : Change w more w' := by
  cases h with
  | other front evs hfront hanswers hevs hstash =>
    exact .other front evs hfront hanswers hevs hstash
  | aside hm hid ho hstash => exact .aside hm hid ho hstash
  | returns front evs htop hgets hevs hstash =>
    refine .returns front evs htop ?_ hevs hstash
    cases hgets with
    | aside haside => exact .aside haside
    | taken hnone hm hid ho => exact .taken hnone hm hid ho
    | ended hnone => exact .ended hnone

lemma change_of_takeReply {m : Message} (hm : m.isAnswer = true)
    (hsame : w.endpoint.outstanding = w.callIds)
    (haside : w.top?.bind w.endpoint.aside? = none) :
    Change w (.took m (HasHeap.heap w.state) :: (w.replyEvents m : List (Event HH WH)).map .event)
      (w.takeReply m) := by
  rcases reply_cases HH w m with ⟨o, h', ho, htop, hafter, hevents⟩ |
    ⟨o, h', ho, hwaits, hafter, hevents⟩ | ⟨hlost, hafter, hevents⟩
  · have hhead := htop
    rw [top?_eq] at hhead
    obtain ⟨rest, hcalls⟩ := List.head?_eq_some_iff.1 hhead
    rw [htop, Option.bind_some] at haside
    obtain ⟨hstash, evs, heq, hevs⟩ := resumeTop_returns HH
      (w := { w with state := HasHeap.setHeap h' w.state }) hcalls o
    rw [hafter, hevents, heq]
    exact .returns _ _ hcalls (.taken haside hm rfl ho) hevs hstash
  · rw [hafter, hevents]
    exact .aside hm (hsame ▸ hwaits) ho rfl
  · have hout : m.id ∉ w.endpoint.outstanding := by
      obtain ⟨o, h', ho⟩ := Message.exists_outcome hm (HasHeap.heap w.state)
      exact hlost.resolve_left (by simp [ho])
    rw [hafter, hevents]
    refine .other [.took m _] [] (by simp [Heard.changesCalls])
      (fun a ha => ?_) (by simp) rfl
    have hne : m.id ≠ a := fun heq => hout (hsame ▸ heq ▸ ha)
    simp [Heard.answerTo?, hne]

/-- When the queue ends, the call on top returns. -/
lemma change_of_disconnect (hnone : w.top?.bind w.endpoint.aside? = none) :
    Change w (.ended :: (w.disconnectEvents : List (Event HH WH)).map .event) w.disconnect := by
  rcases disconnect_cases HH w with ⟨id, rest, hcalls, hafter, hevents⟩ | ⟨-, hafter, hevents⟩
  · rw [top?_eq, hcalls, List.head?_cons, Option.bind_some] at hnone
    obtain ⟨hstash, evs, heq, hevs⟩ := resumeTop_returns HH (w := w.hungUp) hcalls (.error .closed)
    rw [hafter, hevents, heq]
    exact .returns [.ended] _ hcalls (.ended hnone) hevs hstash
  · rw [hafter, hevents]
    exact .other [.ended] [] (by simp [Heard.changesCalls]) (fun _ _ => rfl)
      (by simp) rfl

/-- Every step around a thread whose outstanding calls are those on its stack is such a change. -/
lemma ThreadStep.change {ps : WorkerPrograms σ WH} (step : ThreadStep ps w more w')
    (hsame : w.endpoint.outstanding = w.callIds) : Change w more w' := by
  cases step with
  | move hmove =>
    have hmoved : Moved ps w ((w.heard : List (Heard HH WH)) ++ (w.moveEvents ps).map .event) w' :=
      moved_of_move hmove
    generalize (w.heard : List (Heard HH WH)) ++ (w.moveEvents ps).map .event = more at hmoved ⊢
    cases hmoved with
    | aside hcalls haside =>
      obtain ⟨hstash, evs, heq, hevs⟩ := resumeTop_returns HH hcalls _
      rw [heq]
      exact .returns [] _ hcalls (.aside haside) hevs hstash
    | @taken m q hnone hreceive =>
      cases m with
      | call a target args =>
        obtain ⟨hstash, hevs⟩ := stash_serveCall HH ps
          { w with link := { w.link with toWorker := q } } a target args
        exact .other [.took _ _] _ (by simp [Heard.changesCalls])
          (fun _ _ => by simp [Heard.answerTo?, Message.isAnswer]) hevs hstash
      | reply a v =>
        exact (change_of_takeReply (w := { w with link := { w.link with toWorker := q } })
          (m := .reply a v) rfl hsame hnone).of_link
      | fail a e =>
        exact (change_of_takeReply (w := { w with link := { w.link with toWorker := q } })
          (m := .fail a e) rfl hsame hnone).of_link
    | ended hnone hreceive => exact change_of_disconnect hnone
  | start hrest task =>
    obtain ⟨hstash, hevs⟩ := stash_runBase HH w (task w.state)
    exact .other [] _ (by simp) (by simp) hevs hstash
  | serve => exact .silent rfl
  | close =>
    refine .silent ?_
    unfold WorkerSide.close
    split <;> rfl
  | manage hmanaged => exact .silent hmanaged.unchanged.2.2.2
  | work => exact .silent rfl

/-! ## Runs -/

omit [HasHeap σ] in
/-- A call that was made before a step and is on the stack after it was on the stack before it, and
has not returned. -/
lemma Accounts.mem_of_issued {l l' : Link} {ids' : List CallId} (h : Accounts e l ids log)
    (h' : Accounts e' l' ids' (log ++ more)) (hnodup : (issuedIn (log ++ more)).Nodup)
    (hid : id ∈ ids') (hissued : id ∈ issuedIn log) :
    id ∈ ids ∧ id ∉ returnedIn (log ++ more) := by
  have hapart := List.disjoint_of_nodup_append (h'.once.nodup_iff.2 hnodup)
  have hnot : id ∉ returnedIn (log ++ more) := fun hreturned => hapart hreturned hid
  rcases List.mem_append.1 (h.once.symm.subset hissued) with hreturned | hid
  · exact absurd (by rw [returnedIn_append]; exact List.mem_append_left _ hreturned) hnot
  · exact ⟨hid, hnot⟩

omit [HasHeap σ] in
/-- A call that a step makes has had no answer after it. -/
lemma newest_of_new {front : List (Heard HH WH)} (evs : List (Event HH WH))
    (hfront : ∀ x ∈ front, x.changesCalls = false) (hid : id ∉ issuedIn log)
    (hstash : ∀ entry ∈ e'.stash, entry.1 ∈ issuedIn log) :
    Newest e' (log ++ (front ++ evs.map .event)) id := by
  refine .waiting (aside?_eq_none fun entry hentry heq => hid (heq ▸ hstash entry hentry)) ?_
  have hnone : id ∉ issuedIn front := by
    rw [(ids_of_unchanged hfront).1]
    exact List.not_mem_nil
  rw [repliesTo_of_not_issued hid, repliesTo_of_not_issued hnone]
  exact since_eq_nil (answers_events evs)

omit [HasHeap σ] in
lemma aside?_congr (h : e'.stash = e.stash) : e'.aside? id = e.aside? id := by
  rw [WorkerEndpoint.aside?, h]
  rfl

/-- What is heard before the call on top returns is for no other call, and changes none. -/
lemma Gets.front {front : List (Heard HH WH)} {o : CallOutcome} (h : Gets w id front o) :
    (∀ x ∈ front, x.changesCalls = false) ∧
      ∀ a, a ≠ id → front.filterMap (Heard.answerTo? a) = [] := by
  cases h with
  | aside => exact ⟨by simp, fun _ _ => rfl⟩
  | taken hnone hm hid ho =>
    refine ⟨by simp [Heard.changesCalls, CallEvent.isIssued, CallEvent.isCompleted], ?_⟩
    intro a hne
    simp [Heard.answerTo?, hid, hne.symm]
  | ended => exact ⟨by simp [Heard.changesCalls], fun _ _ => rfl⟩

/-- The call on top returns what the last answer to it carries, or there is none. -/
lemma Gets.returnedLast {front : List (Heard HH WH)} {o : CallOutcome} (h : Gets w id front o)
    (hissued : id ∈ issuedIn log) (hnew : Newest w.endpoint log id) :
    ReturnedLast (log ++ front) (.event (.ofWorker id (.completed o))) := by
  cases h with
  | aside haside =>
    rw [List.append_nil]
    cases hnew with
    | waiting hnone => cases hnone.symm.trans haside
    | aside hsome hlast =>
      obtain rfl := Option.some.inj (hsome.symm.trans haside)
      exact .inl hlast
  | taken hnone hm hid ho =>
    subst hid
    exact .inl (.of_taken hissued hm ho)
  | ended hnone =>
    refine .inr ⟨rfl, ?_⟩
    cases hnew with
    | waiting _ hreplies =>
      rw [repliesTo_append hissued, hreplies]
      rfl
    | aside hsome => cases hnone.symm.trans hsome

omit [HasHeap σ] in
lemma Heard.returns_of_unchanged {x : Heard HH WH} (h : x.changesCalls = false) :
    x.returns = false := by
  cases x with
  | event e =>
    cases e with
    | ofWorker a e => exact (Bool.or_eq_false_iff.1 h).2
    | ofHost => rfl
  | _ => rfl

/-- So what is put aside stays what the last answer carries, and what returns is that. -/
lemma Change.newest (hchange : Change w more w') (hsound : Sound w log)
    (hsound' : Sound w' (log ++ more)) (hnodup : (issuedIn (log ++ more)).Nodup)
    (hnew : ∀ id ∈ w.callIds, Newest w.endpoint log id) :
    (∀ id ∈ w'.callIds, Newest w'.endpoint (log ++ more) id) ∧
      Told (fun pre => ReturnedLast (log ++ pre)) more := by
  have hstashed : ∀ entry ∈ w.endpoint.stash, entry.1 ∈ issuedIn log :=
    fun entry hentry => hsound.accounts.issued (hsound.accounts.stash entry hentry)
  have hold : ∀ a ∈ w'.callIds, a ∈ issuedIn log →
      a ∈ w.callIds ∧ a ∉ returnedIn (log ++ more) :=
    fun a ha hissued => hsound.accounts.mem_of_issued hsound'.accounts hnodup ha hissued
  cases hchange with
  | other front evs hfront hanswers hevs hstash =>
    refine ⟨fun a ha => ?_, told_of_not_returned _ fun x hx => ?_⟩
    · by_cases hissued : a ∈ issuedIn log
      · obtain ⟨hmem, -⟩ := hold a ha hissued
        refine ((hnew a hmem).append hissued ?_).congr (aside?_congr hstash)
        rw [List.filterMap_append, hanswers a hmem, answers_events, List.append_nil]
      · exact newest_of_new evs hfront hissued (hstash ▸ hstashed)
    · rcases List.mem_append.1 hx with hx | hx
      · exact Heard.returns_of_unchanged (hfront x hx)
      · obtain ⟨e, he, rfl⟩ := List.mem_map.1 hx
        exact hevs e he
  | @aside m o h' _ hm hid ho hstash =>
    refine ⟨fun a ha => ?_, told_of_not_returned _ ?_⟩
    · have hissued : a ∈ issuedIn log := by
        have hafter := hsound'.accounts.issued ha
        rw [issuedIn_append] at hafter
        refine (List.mem_append.1 hafter).resolve_right ?_
        rw [(ids_of_unchanged (by
          simp [Heard.changesCalls, CallEvent.isIssued, CallEvent.isCompleted])).1]
        exact List.not_mem_nil
      obtain ⟨hmem, -⟩ := hold a ha hissued
      by_cases heq : a = m.id
      · subst heq
        refine .aside ?_ (.of_taken hissued hm ho)
        rw [aside?_congr hstash]
        exact aside?_putAside_self o
      · refine ((hnew a hmem).append hissued ?_).congr ?_
        · simp [Heard.answerTo?, Ne.symm heq]
        · rw [aside?_congr hstash]
          exact aside?_putAside_of_ne heq o
    · simp [Heard.returns, CallEvent.isCompleted]
  | @returns front evs id rest o _ htop hgets hevs hstash =>
    obtain ⟨hfront, hothers⟩ := hgets.front
    have hid : id ∈ w.callIds := htop ▸ List.mem_cons_self
    have hissued := hsound.accounts.issued hid
    refine ⟨fun a ha => ?_, ?_⟩
    · by_cases hbefore : a ∈ issuedIn log
      · obtain ⟨hmem, hnot⟩ := hold a ha hbefore
        have hne : a ≠ id := by
          rintro rfl
          refine hnot ?_
          simp [returnedIn, completedIds, callLog, workerLog, Heard.event?, Event.worker?,
            CallEvent.isCompleted]
        refine ((hnew a hmem).append hbefore ?_).congr ?_
        · rw [List.filterMap_append, hothers a hne]
          exact answers_events (.ofWorker id (.completed o) :: evs)
        · rw [aside?_congr (e := w.endpoint.settle id) hstash]
          exact aside?_settle hne
      · refine newest_of_new (.ofWorker id (.completed o) :: evs) hfront hbefore ?_
        intro entry hentry
        rw [hstash] at hentry
        exact hstashed entry (List.mem_filter.1 hentry).1
    · refine .append (told_of_not_returned _ fun x hx => Heard.returns_of_unchanged (hfront x hx))
        (.cons ?_ (told_of_not_returned _ fun x hx => ?_))
      · rw [List.append_nil]
        exact hgets.returnedLast hissued (hnew id hid)
      · obtain ⟨e, he, rfl⟩ := List.mem_map.1 hx
        exact hevs e he

lemma PeerRun.newest {ps : WorkerPrograms σ WH} {name : String} {state : σ}
    (run : PeerRun ps name state w log) (hbound : (issuedIn log).length ≤ 2 ^ 64) :
    (∀ id ∈ w.callIds, Newest w.endpoint log id) ∧ Told ReturnedLast log := by
  induction run with
  | new => exact ⟨fun id hid => absurd hid List.not_mem_nil, told_nil _⟩
  | step before step ih =>
    have hbefore := bound_of_append hbound
    have hsound := before.sound hbefore
    have hsound' := hsound.step step hbound
    obtain ⟨hnew, htold⟩ := ih hbefore
    obtain ⟨hnew', hmore⟩ := (step.change hsound.accounts.outstanding).newest hsound hsound'
      (hsound'.accounts.numbered.nodup hbound) hnew
    exact ⟨hnew', htold.append hmore⟩
  | peer before hpeer ih => exact ih hbound

/-- Against whatever peer, at every moment of every run in which no number is given twice: a call
that has not returned as closed has returned what the last of the answers to it carries that were
taken since it was made, and so the first one if there was just one. The two differ only for a call
that is answered again while it is further down the stack: one on top that has nothing put aside for
it has had no answer at all, so that what it takes off the queue itself is the first. -/
theorem PeerRun.last_answer_counts {ps : WorkerPrograms σ WH} {name : String} {state : σ}
    (run : PeerRun ps name state w log) (hbound : (issuedIn log).length ≤ 2 ^ 64) :
    (∀ pre post id o, log = pre ++ .event (.ofWorker id (.completed o)) :: post →
      o ≠ .error .closed →
      LastAnswer pre id o ∧ ((repliesTo id pre).length ≤ 1 → FirstAnswer pre id o)) ∧
    ∀ id, w.top? = some id → w.endpoint.aside? id = none → repliesTo id log = [] := by
  obtain ⟨hnew, htold⟩ := run.newest hbound
  constructor
  · intro pre post id o heq hopen
    obtain hlast | ⟨hclosed, -⟩ := htold pre _ post heq
    · refine ⟨hlast, fun hlength => ?_⟩
      obtain ⟨earlier, m, h, h', hreplies, hcarries⟩ := hlast
      have hnone : earlier = [] := by
        rw [hreplies, List.length_append, List.length_singleton] at hlength
        exact List.eq_nil_of_length_eq_zero (by omega)
      rw [hnone] at hreplies
      exact ⟨m, h, h', [], hreplies, hcarries⟩
    · exact absurd hclosed hopen
  · intro id htop haside
    rw [top?_eq] at htop
    cases hnew id (List.mem_of_head? htop) with
    | waiting _ hnone => exact hnone
    | aside hsome => cases haside.symm.trans hsome

end

/-! ## Two answers to one call -/

/-- Two answers to the first call come while the handler waits. -/
lemma exists_run_twice :
    ∃ (w : WorkerSide Heap Unit Unit) (pre : List (Heard Unit Unit)),
      PeerRun askingPrograms "worker" .empty w
        (pre ++ [.event (.ofWorker ⟨1⟩ (.completed (.ok (.int 20))))]) ∧
      issuedIn pre = [⟨1⟩, ⟨2⟩] ∧
      repliesTo ⟨1⟩ pre = [(intReply ⟨1⟩ 10, .empty), (intReply ⟨1⟩ 20, .empty)] := by
  obtain ⟨args, hpack⟩ := Pair.exists_packArgs_nil .empty
  have hserved := run_knocked hpack
  have hfirst : PeerRun askingPrograms "worker" .empty (knocked args [(⟨1⟩, .ok (.int 10))])
      (_ ++ heardInt ⟨1⟩ 10) :=
    (hserved.peer (.send (m := intReply ⟨1⟩ 10) rfl)).step (.move rfl)
  have hsecond : PeerRun askingPrograms "worker" .empty (knocked args [(⟨1⟩, .ok (.int 20))])
      (_ ++ heardInt ⟨1⟩ 20) :=
    (hfirst.peer (.send (m := intReply ⟨1⟩ 20) rfl)).step (.move rfl)
  have hinner : PeerRun askingPrograms "worker" .empty (answered args [(⟨1⟩, .ok (.int 20))])
      (_ ++ heardInner 30) :=
    (hsecond.peer (.send (m := intReply ⟨2⟩ 30) rfl)).step (.move rfl)
  have houter : PeerRun askingPrograms "worker" .empty _
      (_ ++ [.event (.ofWorker ⟨1⟩ (.completed (.ok (.int 20))))]) :=
    hinner.step (.move rfl)
  exact ⟨_, _, houter, rfl, rfl⟩

lemma bound_of_twice {pre : List (Heard Unit Unit)} (hissued : issuedIn pre = [⟨1⟩, ⟨2⟩])
    (o : CallOutcome) :
    (issuedIn (pre ++ [.event (.ofWorker ⟨1⟩ (.completed o))])).length ≤ 2 ^ 64 := by
  have hnone : issuedIn [(.event (.ofWorker ⟨1⟩ (.completed o)) : Heard Unit Unit)] = [] := rfl
  rw [issuedIn_append, hissued, hnone]
  norm_num

/-- The first call of the thread has two answers and returns the second. -/
theorem PeerRun.last_answer_counts_twice :
    ∃ (w : WorkerSide Heap Unit Unit) (log pre : List (Heard Unit Unit)),
      PeerRun askingPrograms "worker" .empty w log ∧ (issuedIn log).length ≤ 2 ^ 64 ∧
      log = pre ++ [.event (.ofWorker ⟨1⟩ (.completed (.ok (.int 20))))] ∧
      (repliesTo ⟨1⟩ pre).map (·.1) = [intReply ⟨1⟩ 10, intReply ⟨1⟩ 20] ∧
      LastAnswer pre ⟨1⟩ (.ok (.int 20)) := by
  obtain ⟨w, pre, hrun, hissued, hreplies⟩ := exists_run_twice
  have hbound := bound_of_twice hissued (.ok (.int 20))
  obtain ⟨hlast, -⟩ := (hrun.last_answer_counts hbound).1 pre [] ⟨1⟩ _ rfl (by simp)
  exact ⟨w, _, pre, hrun, hbound, rfl, by rw [hreplies]; rfl, hlast⟩

/-- Not every call that is answered returns what the first answer to it carries. -/
theorem not_every_first_answer_counts :
    ∃ (w : WorkerSide Heap Unit Unit) (log : List (Heard Unit Unit)),
      PeerRun askingPrograms "worker" .empty w log ∧ (issuedIn log).length ≤ 2 ^ 64 ∧
      ¬ ∀ pre post id o, log = pre ++ .event (.ofWorker id (.completed o)) :: post →
        o ≠ .error .closed → FirstAnswer pre id o := by
  obtain ⟨w, pre, hrun, hissued, hreplies⟩ := exists_run_twice
  refine ⟨w, _, hrun, bound_of_twice hissued _, fun hall => ?_⟩
  obtain ⟨m, h, h', later, hfirst, hcarries⟩ := hall pre [] ⟨1⟩ (.ok (.int 20)) rfl (by simp)
  rw [hreplies] at hfirst
  obtain ⟨hanswer, -⟩ := List.cons.inj hfirst
  cases hanswer
  cases hcarries with
  | value hdecode =>
    have hread : Wire.decode .empty ⟨.int 10, []⟩ = .ok (.int 10, .empty) := rfl
    rw [hread] at hdecode
    have hsame : (10 : Int64) = 20 := Value.int.inj (Prod.mk.inj (Except.ok.inj hdecode)).1
    exact absurd hsame (by decide)

end WorkerSide
end WorkerHost
