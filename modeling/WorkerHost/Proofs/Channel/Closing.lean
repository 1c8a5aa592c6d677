import WorkerHost.Proofs.Channel.Pending

/-!
# The host's end when it closes

However calls, answers and the closing of the end fall together, nobody goes on waiting. Emptying
the table gives every call an outcome that has none, and a call whose message comes too late finds
no sender and gives its entry up itself.

* `HostSide.Sound.pending_eq_nil`: what is left in the table of a closed end;
* `HostSide.exists_returned`: at a closed end every call can return by steps of its own;
* `HostSide.Course.left_add_le`, `HostSide.Sound.over_or_own`: when the worker sends nothing any
  more the tasks at the end have so much to do, and something until it is over.
-/

namespace WorkerHost

namespace HostEndpoint
variable {H : Type} {e : HostEndpoint H}

/-- Without a link a call that can be packed uses up a number, and no call leaves an entry. -/
lemma startCall_of_not_joined {link : Link} (hgone : ¬ link.toWorker.Joined) (h : Heap)
    (target : Target) (xs : List Value) :
    e.startCall link h target xs =
      match packArgs h xs with
      | .ok _ => (.error .closed, { e with nextId := e.nextId + 1 }, link)
      | .error err => (.error (.codec err), e, link) := by
  unfold startCall
  cases packArgs h xs with
  | error err => rfl
  | ok args => simp only [Queue.send?_eq_none hgone]

end HostEndpoint

/-- The messages that have been taken, in their order. -/
def tookIn (log : List HostHeard) : List Message :=
  log.filterMap fun
    | .took m _ => some m
    | _ => none

@[simp] lemma tookIn_append {log more : List HostHeard} :
    tookIn (log ++ more) = tookIn log ++ tookIn more :=
  List.filterMap_append

namespace HostSide
variable {H : Type} {s s' s'' : HostSide H} {log more rest : List HostHeard} {c : Caller}
  {back : List Caller}

/-! ## At a closed end -/

/-- The sender of a closed end is gone. -/
lemma Sound.not_joined (h : Sound s log) (hfinished : s.closing = .finished) :
    ¬ s.link.toWorker.Joined := by
  intro hjoined
  have hgone := h.shut.sender (h.shut.unplugged.2 (.inr hfinished))
  rw [hjoined.sending] at hgone
  cases hgone

/-- Whoever waits at a closed end has been given an outcome. -/
lemma Sound.exists_slot (h : Sound s log) (hfinished : s.closing = .finished) (hc : c ∈ s.callers)
    (hstage : c.stage = .waiting) : ∃ o, c.slot = some o ∧ Given log c.id o := by
  have hfits := h.callers.fits c hc
  cases hslot : c.slot with
  | none =>
    have hunsent := h.shut.drained hfinished c.id (hfits.free hslot)
    exact absurd (hfits.stage.2 hstage) hunsent
  | some o => exact ⟨o, rfl, (hfits.given o hslot).2⟩

/-- The entries of a closed end are those of calls that are just finding out. -/
lemma Sound.pending_eq_nil (h : Sound s log) (hfinished : s.closing = .finished)
    (hwaiting : ∀ c ∈ s.callers, c.stage = .waiting) : s.endpoint.pending = [] := by
  rw [List.eq_nil_iff_forall_not_mem]
  intro id hid
  have hunsent := h.shut.drained hfinished id hid
  obtain ⟨c, hc, rfl⟩ := List.mem_map.1 (h.callers.there id hid hunsent)
  exact hunsent ((h.callers.fits c hc).stage.2 (hwaiting c hc))

/-! ## Everybody returns -/

/-- As long as no calls are made, everything stays as it should be. -/
lemma Sound.steps (h : Sound s log) (steps : Steps s more s')
    (hbound : (enteredIn (log ++ more)).length ≤ 2 ^ 64) : Sound s' (log ++ more) := by
  induction steps generalizing log with
  | stop =>
    rw [List.append_nil]
    exact h
  | step hstep later ih =>
    rw [← List.append_assoc] at hbound ⊢
    refine ih (h.step hstep ?_) hbound
    rw [enteredIn_append, List.length_append] at hbound
    omega

/-- Calls that are under way go on by steps of their own, and nothing else happens. -/
structure GoesOn (s : HostSide H) (more : List HostHeard) (s' : HostSide H) : Prop where
  steps : Steps s more s'
  closing : s'.closing = s.closing
  dispatching : s'.endpoint.dispatching = s.endpoint.dispatching
  entered : enteredIn more = []
  took : tookIn more = []

lemma GoesOn.append (h : GoesOn s more s') (h' : GoesOn s' rest s'') :
    GoesOn s (more ++ rest) s'' where
  steps := h.steps.append h'.steps
  closing := h'.closing.trans h.closing
  dispatching := h'.dispatching.trans h.dispatching
  entered := by
    rw [enteredIn_append, h.entered, h'.entered]
    rfl
  took := by
    rw [tookIn_append, h.took, h'.took]
    rfl

lemma withdrawal_quiet (s : HostSide H) (id : CallId) (o : CallOutcome) :
    enteredIn (s.withdrawal id ++ [.returned id o]) = [] ∧
      tookIn (s.withdrawal id ++ [.returned id o]) = [] := by
  rw [withdrawal]
  split
  · exact ⟨rfl, rfl⟩
  · exact ⟨rfl, rfl⟩

/-- A call at a closed end can return. -/
lemma exists_returned_first (h : Sound s log) (hfinished : s.closing = .finished)
    (hc : s.callers = c :: back) :
    ∃ more s', GoesOn s more s' ∧ s'.callers = back ∧ ∃ o, .returned c.id o ∈ more := by
  have hc' : s.callers = [] ++ c :: back := hc
  obtain ⟨hentered, htook⟩ := s.withdrawal_quiet c.id (.error .closed)
  have hlast : .returned c.id (.error .closed) ∈
      s.withdrawal c.id ++ [.returned c.id (.error .closed)] :=
    List.mem_append_right _ (List.mem_singleton_self _)
  cases hstage : c.stage with
  | waiting =>
    have hin : c ∈ s.callers := by
      rw [hc]
      exact List.mem_cons_self
    obtain ⟨o, hslot, -⟩ := h.exists_slot hfinished hin hstage
    have hdeliver := (Own.deliver hc' hstage hslot).steps
    exact ⟨_, _, ⟨hdeliver, rfl, rfl, rfl, rfl⟩, rfl, o, List.mem_singleton_self _⟩
  | refused =>
    have hwithdraw := (Own.withdraw hc' hstage).steps
    exact ⟨_, _, ⟨hwithdraw, rfl, rfl, hentered, htook⟩, rfl, _, hlast⟩
  | entered m =>
    have hnone := Queue.send?_eq_none (h.not_joined hfinished) m
    have hrefuse := Steps.step (.own (.refuse hc' hstage hnone)) (Own.withdraw rfl rfl).steps
    exact ⟨_, _, ⟨hrefuse, rfl, rfl, hentered, htook⟩, rfl, _, hlast⟩

/-- At a closed end every call can return by steps of its own, and then the table is empty. -/
lemma exists_returned (h : Sound s log) (hfinished : s.closing = .finished)
    (hbound : (enteredIn log).length ≤ 2 ^ 64) :
    ∃ more s', GoesOn s more s' ∧ s'.callers = [] ∧ s'.endpoint.pending = [] ∧
      ∀ c ∈ s.callers, ∃ o, .returned c.id o ∈ more := by
  induction hc : s.callers generalizing s log with
  | nil =>
    have hnobody : ∀ c ∈ s.callers, c.stage = .waiting := by
      rw [hc]
      exact fun c hc => absurd hc List.not_mem_nil
    exact ⟨[], s, ⟨.stop s, rfl, rfl, rfl, rfl⟩, hc, h.pending_eq_nil hfinished hnobody,
      fun c hc => absurd hc List.not_mem_nil⟩
  | cons c back ih =>
    obtain ⟨first, u, hfirst, hcallers, o, hreturned⟩ := exists_returned_first h hfinished hc
    have hbound' : (enteredIn (log ++ first)).length ≤ 2 ^ 64 := by
      rw [enteredIn_append, hfirst.entered, List.append_nil]
      exact hbound
    obtain ⟨more, s', hlater, hnobody, hempty, hall⟩ :=
      ih (h.steps hfirst.steps hbound') (hfirst.closing.trans hfinished) hbound' hcallers
    refine ⟨first ++ more, s', hfirst.append hlater, hnobody, hempty, fun d hd => ?_⟩
    rcases List.mem_cons.1 hd with rfl | hin
    · exact ⟨o, List.mem_append_left _ hreturned⟩
    · obtain ⟨o', hlast⟩ := hall d hin
      exact ⟨o', List.mem_append_right _ hlast⟩

/-! ## The end of the worker's messages -/

end HostSide

/-- How many steps a call has still to take. -/
def CallStage.left : CallStage → ℕ
  | entered _ => 2
  | waiting => 1
  | refused => 1

def Dispatcher.left : Dispatcher → ℕ
  | taking => 3
  | stopped => 2
  | shutting => 1
  | done => 0

def Closing.left : Closing → ℕ
  | before => 3
  | flagged => 2
  | unplugged => 1
  | finished => 0

namespace HostSide

/-- What happens at the end while the worker sends nothing and no more calls are made: `n` steps of
the tasks themselves, and between them whatever else can happen there, also that somebody closes the
end. -/
inductive Course {H : Type} (s : HostSide H) : ℕ → List HostHeard → HostSide H → Prop where
  | stop : Course s 0 [] s
  | own {n log u more v} (before : Course s n log u) (h : Own u more v) :
      Course s (n + 1) (log ++ more) v
  | other {n log u more v} (before : Course s n log u) (h : Step u more v)
      (hentered : enteredIn more = []) : Course s n (log ++ more) v
  | peer {n log u l} (before : Course s n log u)
      (hsending : l.toWorker.sending = u.link.toWorker.sending)
      (hqueue : l.toHost = u.link.toHost) : Course s n log { u with link := l }

variable {H : Type} {s s' : HostSide H} {log more : List HostHeard} {n : ℕ}
  {front back : List Caller} {c : Caller}

/-- How many steps some calls have still to take. -/
def callsLeft (cs : List Caller) : ℕ :=
  (cs.map (·.stage.left)).sum

/-- How many steps the tasks at the end have still to take, those of the dispatcher with the
messages that it has before it. -/
def left (s : HostSide H) : ℕ :=
  s.link.toHost.messages.length + s.dispatcher.left + s.closing.left + callsLeft s.callers

lemma callsLeft_middle (front back : List Caller) (c : Caller) :
    callsLeft (front ++ c :: back) = c.stage.left + callsLeft (front ++ back) := by
  simp only [callsLeft, List.map_append, List.map_cons, List.sum_append, List.sum_cons]
  omega

/-- Being given an outcome is no step of a call. -/
lemma callsLeft_give (ids : List CallId) (o : CallOutcome) (cs : List Caller) :
    callsLeft (cs.map (Caller.give ids o)) = callsLeft cs := by
  rw [callsLeft, List.map_map]
  exact congrArg List.sum (List.map_congr_left fun c _ => congrArg _ (c.stage_give ids o))

lemma left_take (s : HostSide H) (hp : Heap) (m : Message) (q : Queue) :
    left { (s.take hp m).2 with link := { s.link with toHost := q } } =
      left { s with link := { s.link with toHost := q } } := by
  rcases s.take_cases hp m with ⟨-, heq⟩ | ⟨-, -, o, h', -, heq⟩
  · rw [heq]
  · rw [heq]
    simp only [left, callsLeft_give]

/-- Every step of a task is one less to take. -/
lemma Own.left_lt (h : Own s more s') : s'.left < s.left := by
  cases h with
  | send hc hstage =>
    simp only [left, hc, callsLeft_middle, hstage, CallStage.left]
    omega
  | refuse hc hstage =>
    simp only [left, hc, callsLeft_middle, hstage, CallStage.left]
    omega
  | withdraw hc hstage =>
    simp only [left, hc, callsLeft_middle, hstage, CallStage.left]
    omega
  | deliver hc hstage =>
    simp only [left, hc, callsLeft_middle, hstage, CallStage.left]
    omega
  | dispatch hp htaking hreceive =>
    obtain ⟨hmessages, -, -⟩ := Queue.eq_of_receive hreceive
    rw [left_take]
    simp only [left, hmessages, List.length_cons]
    omega
  | stop htaking =>
    simp only [left, htaking, Dispatcher.left]
    omega
  | shut hstopped hopen =>
    simp only [left, hstopped, hopen, Dispatcher.left, Closing.left]
    omega
  | unplug hclosing =>
    simp only [left, hclosing, Closing.left]
    omega
  | drain hclosing =>
    simp only [left, hclosing, Closing.left, callsLeft_give]
    omega
  | leave hover =>
    rcases hover with ⟨hstopped, -⟩ | ⟨hshutting, -⟩
    · simp only [left, hstopped, Dispatcher.left, Queue.dropReceiver, List.length_nil]
      omega
    · simp only [left, hshutting, Dispatcher.left, Queue.dropReceiver, List.length_nil]
      omega

lemma post_toHost (l : Link) (m : Message) : (HostEndpoint.post l m).toHost = l.toHost := by
  unfold HostEndpoint.post
  split <;> rfl

/-- Nothing but a new call is more to do. -/
lemma Step.left_le (h : Step s more s') (hentered : enteredIn more = []) : s'.left ≤ s.left := by
  cases h with
  | own hown => exact hown.left_lt.le
  | enter => cases hentered
  | abandon hc =>
    simp only [left, hc, callsLeft_middle]
    omega
  | flag hclosing =>
    simp only [left, hclosing, Closing.left]
    omega
  | answer m => simp only [left, post_toHost, le_refl]
  | manage => exact le_rfl

/-- What the stage of the dispatcher says of the end. -/
structure Led (s : HostSide H) : Prop where
  ended : s.dispatcher ≠ .taking → s.link.toHost.receive = .ended
  begun : s.dispatcher = .shutting ∨ s.dispatcher = .done → s.closing ≠ .before
  done : s.dispatcher = .done → s.endpoint.dispatching = false

lemma led_new (name : String) : Led (⟨.new name, .new, [], .before, .taking⟩ : HostSide H) :=
  ⟨fun h => absurd rfl h, fun h => (h.elim nofun nofun), nofun⟩

lemma take_rest (s : HostSide H) (h : Heap) (m : Message) :
    (s.take h m).2.dispatcher = s.dispatcher ∧ (s.take h m).2.closing = s.closing := by
  unfold take
  split
  · exact ⟨rfl, rfl⟩
  · exact ⟨rfl, rfl⟩

lemma not_taking_of_leaving (h : s.dispatcher = .stopped ∧ s.closing ≠ .before ∨
    s.dispatcher = .shutting ∧ s.closing = .finished) : s.dispatcher ≠ .taking := by
  rcases h with ⟨heq, -⟩ | ⟨heq, -⟩
  · rw [heq]
    exact nofun
  · rw [heq]
    exact nofun

lemma Led.own (h : s.Led) (own : Own s more s') : s'.Led := by
  cases own with
  | send => exact ⟨h.ended, h.begun, h.done⟩
  | refuse => exact ⟨h.ended, h.begun, h.done⟩
  | withdraw => exact ⟨h.ended, h.begun, h.done⟩
  | deliver => exact ⟨h.ended, h.begun, h.done⟩
  | @dispatch m q hp htaking hreceive =>
    have hsame : (s.take hp m).2.dispatcher = .taking := (s.take_rest hp m).1.trans htaking
    refine ⟨fun hnot => absurd hsame hnot, fun hor => ?_, fun hover => ?_⟩
    · rcases hor with heq | heq
      · cases hsame.symm.trans heq
      · cases hsame.symm.trans heq
    · cases hsame.symm.trans hover
  | stop htaking hended => exact ⟨fun _ => hended, fun hor => (hor.elim nofun nofun), nofun⟩
  | shut hstopped hopen =>
    exact ⟨fun _ => h.ended (by rw [hstopped]; exact nofun), fun _ => nofun, nofun⟩
  | unplug => exact ⟨h.ended, fun _ => nofun, h.done⟩
  | drain => exact ⟨h.ended, fun _ => nofun, h.done⟩
  | leave hover =>
    refine ⟨fun _ => ?_, fun _ => ?_, fun _ => rfl⟩
    · obtain ⟨-, hgone⟩ := Queue.receive_eq_ended.1 (h.ended (not_taking_of_leaving hover))
      exact Queue.receive_eq_ended.2 ⟨rfl, hgone⟩
    · rcases hover with ⟨-, hne⟩ | ⟨-, heq⟩
      · exact hne
      · show s.closing ≠ .before
        rw [heq]
        exact nofun

lemma Led.step (h : s.Led) (step : Step s more s') : s'.Led := by
  cases step with
  | own hown => exact h.own hown
  | enter => exact ⟨h.ended, h.begun, h.done⟩
  | abandon => exact ⟨h.ended, h.begun, h.done⟩
  | flag => exact ⟨h.ended, fun _ => nofun, h.done⟩
  | answer m =>
    refine ⟨fun hnot => ?_, h.begun, h.done⟩
    rw [post_toHost]
    exact h.ended hnot
  | manage hmanaged =>
    refine ⟨h.ended, h.begun, fun hover => ?_⟩
    rw [hmanaged.closed.2]
    exact h.done hover

/-- The end is closed, its dispatcher is over, and nobody waits. -/
structure Over (s : HostSide H) : Prop where
  closing : s.closing = .finished
  dispatcher : s.dispatcher = .done
  dispatching : s.endpoint.dispatching = false
  callers : s.callers = []
  pending : s.endpoint.pending = []

/-- As long as the end is not over, and the worker's sender is gone, some task has a step to take.
-/
lemma Sound.over_or_own (h : Sound s log) (hled : s.Led)
    (hgone : s.link.toHost.sending = false) : s.Over ∨ ∃ more s', Own s more s' := by
  refine or_iff_not_imp_right.2 fun hstuck => ?_
  have hno {more : List HostHeard} {s' : HostSide H} : ¬ Own s more s' :=
    fun hown => hstuck ⟨more, s', hown⟩
  -- the dispatcher takes what there is, closes the end and leaves
  have hclosing : s.closing ≠ .before ∧ s.dispatcher = .done := by
    cases hdispatcher : s.dispatcher with
    | taking =>
      cases hreceive : s.link.toHost.receive with
      | message m q => exact absurd (.dispatch .empty hdispatcher hreceive) hno
      | ended => exact absurd (.stop hdispatcher hreceive) hno
      | waiting => exact absurd hreceive (Queue.receive_ne_waiting hgone)
    | stopped =>
      by_cases hbefore : s.closing = .before
      · exact absurd (.shut hdispatcher hbefore) hno
      · exact absurd (.leave (.inl ⟨hdispatcher, hbefore⟩)) hno
    | shutting =>
      have hbegun := hled.begun (.inl hdispatcher)
      cases hclosing : s.closing with
      | before => exact absurd hclosing hbegun
      | flagged => exact absurd (.unplug hclosing) hno
      | unplugged => exact absurd (.drain hclosing) hno
      | finished => exact absurd (.leave (.inr ⟨hdispatcher, hclosing⟩)) hno
    | done => exact ⟨hled.begun (.inr hdispatcher), rfl⟩
  have hfinished : s.closing = .finished := by
    cases hstage : s.closing with
    | before => exact absurd hstage hclosing.1
    | flagged => exact absurd (.unplug hstage) hno
    | unplugged => exact absurd (.drain hstage) hno
    | finished => rfl
  -- a call finds that there is no sender, or it has an outcome
  have hnobody : s.callers = [] := by
    refine List.eq_nil_iff_forall_not_mem.2 fun c hin => ?_
    obtain ⟨front, back, hc⟩ := List.append_of_mem hin
    cases hstage : c.stage with
    | entered m =>
      exact hno (.refuse hc hstage (Queue.send?_eq_none (h.not_joined hfinished) m))
    | refused => exact hno (.withdraw hc hstage)
    | waiting =>
      obtain ⟨o, hslot, -⟩ := h.exists_slot hfinished hin hstage
      exact hno (.deliver hc hstage hslot)
  refine ⟨hfinished, hclosing.2, hled.done hclosing.2, hnobody, h.pending_eq_nil hfinished ?_⟩
  rw [hnobody]
  exact fun c hc => absurd hc List.not_mem_nil

lemma Own.entered (h : Own s more s') : enteredIn more = [] := by
  cases h with
  | withdraw => exact (s.withdrawal_quiet _ _).1
  | @dispatch m q hp htaking hreceive =>
    rcases s.take_cases hp m with ⟨-, heq⟩ | ⟨-, -, o, h', -, heq⟩
    · rw [heq]
      rfl
    · rw [heq]
      rfl
  | drain =>
    rw [enteredIn, List.filterMap_map, List.filterMap_eq_nil_iff]
    exact fun _ _ => rfl
  | send => rfl
  | refuse => rfl
  | deliver => rfl
  | stop => rfl
  | shut => rfl
  | unplug => rfl
  | leave => rfl

lemma Course.entered (course : Course s n more s') : enteredIn more = [] := by
  induction course with
  | stop => rfl
  | own before h ih => rw [enteredIn_append, ih, h.entered, List.append_nil]
  | other before h hentered ih => rw [enteredIn_append, ih, hentered, List.append_nil]
  | peer before hsending hqueue ih => exact ih

/-- There is an end to what the tasks do. -/
lemma Course.left_add_le (course : Course s n more s') : s'.left + n ≤ s.left := by
  induction course with
  | stop => exact le_rfl
  | own before h ih =>
    have hlt := h.left_lt
    omega
  | other before h hentered ih => exact (Nat.add_le_add_right (h.left_le hentered) _).trans ih
  | @peer n log u l before hsending hqueue ih =>
    have hsame : left { u with link := l } = u.left := by simp only [left, hqueue]
    rw [hsame]
    exact ih

/-- What leaves the queue is taken, in its order. -/
lemma Own.took (h : Own s more s') (hled : s.Led) :
    tookIn more ++ s'.link.toHost.messages = s.link.toHost.messages ∧
      s'.link.toHost.sending = s.link.toHost.sending := by
  cases h with
  | withdraw => exact ⟨by rw [(s.withdrawal_quiet _ _).2]; rfl, rfl⟩
  | @dispatch m q hp htaking hreceive =>
    obtain ⟨hmessages, hsending, -⟩ := Queue.eq_of_receive hreceive
    have hm : tookIn (s.take hp m).1 = [m] := by
      rcases s.take_cases hp m with ⟨-, heq⟩ | ⟨-, -, o, h', -, heq⟩
      · rw [heq]
        rfl
      · rw [heq]
        rfl
    exact ⟨by rw [hm, hmessages]; rfl, hsending⟩
  | drain =>
    have hnone : tookIn (s.endpoint.pending.map .rejected) = [] := by
      rw [tookIn, List.filterMap_map, List.filterMap_eq_nil_iff]
      exact fun _ _ => rfl
    exact ⟨by rw [hnone]; rfl, rfl⟩
  | leave hover =>
    have hended := hled.ended (not_taking_of_leaving hover)
    exact ⟨(Queue.receive_eq_ended.1 hended).1.symm, rfl⟩
  | send => exact ⟨rfl, rfl⟩
  | refuse => exact ⟨rfl, rfl⟩
  | deliver => exact ⟨rfl, rfl⟩
  | stop => exact ⟨rfl, rfl⟩
  | shut => exact ⟨rfl, rfl⟩
  | unplug => exact ⟨rfl, rfl⟩

lemma Step.took (h : Step s more s') (hled : s.Led) :
    tookIn more ++ s'.link.toHost.messages = s.link.toHost.messages ∧
      s'.link.toHost.sending = s.link.toHost.sending := by
  cases h with
  | own hown => exact hown.took hled
  | enter => exact ⟨rfl, rfl⟩
  | abandon => exact ⟨rfl, rfl⟩
  | flag => exact ⟨rfl, rfl⟩
  | answer m =>
    rw [post_toHost]
    exact ⟨rfl, rfl⟩
  | manage => exact ⟨rfl, rfl⟩

/-- Along a course everything is as it should be, and what has left the queue was taken. -/
lemma Course.sound (course : Course s n more s') (h : Sound s log) (hled : s.Led)
    (hbound : (enteredIn log).length ≤ 2 ^ 64) :
    Sound s' (log ++ more) ∧ s'.Led ∧
      tookIn more ++ s'.link.toHost.messages = s.link.toHost.messages ∧
      s'.link.toHost.sending = s.link.toHost.sending := by
  have hstep {u v : HostSide H} {first next : List HostHeard}
      (ih : Sound u (log ++ first) ∧ u.Led ∧
        tookIn first ++ u.link.toHost.messages = s.link.toHost.messages ∧
        u.link.toHost.sending = s.link.toHost.sending)
      (hentered : enteredIn (first ++ next) = []) (h : Step u next v) :
      Sound v (log ++ (first ++ next)) ∧ v.Led ∧
        tookIn (first ++ next) ++ v.link.toHost.messages = s.link.toHost.messages ∧
        v.link.toHost.sending = s.link.toHost.sending := by
    obtain ⟨hsound, hled, htook, hsending⟩ := ih
    obtain ⟨htook', hsending'⟩ := h.took hled
    refine ⟨?_, hled.step h, ?_, hsending'.trans hsending⟩
    · rw [← List.append_assoc]
      refine hsound.step h ?_
      rw [List.append_assoc, enteredIn_append, hentered, List.append_nil]
      exact hbound
    · rw [tookIn_append, List.append_assoc, htook', htook]
  induction course with
  | stop =>
    rw [List.append_nil]
    exact ⟨h, hled, rfl, rfl⟩
  | own before hown ih => exact hstep ih (before.own hown).entered (.own hown)
  | other before hother hentered ih =>
    exact hstep ih (before.other hother hentered).entered hother
  | @peer n log u l before hsending hqueue ih =>
    obtain ⟨hsound, hled, htook, hgone⟩ := ih
    refine ⟨hsound.congr rfl rfl rfl rfl rfl hsending, ⟨?_, hled.begun, hled.done⟩, ?_, ?_⟩
    · exact fun hnot => (congrArg Queue.receive hqueue).trans (hled.ended hnot)
    · exact (congrArg (tookIn _ ++ ·.messages) hqueue).trans htook
    · exact (congrArg Queue.sending hqueue).trans hgone

/-- When the worker's sender is gone, then however it goes on, as long as no more calls are made:
the tasks have so many steps to take, and a step to take until the end is over, with all messages of
the worker taken. -/
lemma Sound.course (h : Sound s log) (hled : s.Led) (hbound : (enteredIn log).length ≤ 2 ^ 64)
    (hgone : s.link.toHost.sending = false) (course : Course s n more s') :
    n ≤ s.left ∧ ((∃ next u, Own s' next u) ∨
      s'.Over ∧ tookIn more = s.link.toHost.messages) := by
  obtain ⟨hsound, hled', htook, hsending⟩ := course.sound h hled hbound
  refine ⟨(Nat.le_add_left _ _).trans course.left_add_le, ?_⟩
  rcases hsound.over_or_own hled' (hsending.trans hgone) with hover | hown
  · right
    have hended := hled'.ended (by rw [hover.dispatcher]; exact nofun)
    rw [(Queue.receive_eq_ended.1 hended).1, List.append_nil] at htook
    exact ⟨hover, htook⟩
  · exact .inl hown

end HostSide
end WorkerHost
