import WorkerHost.Proofs.Channel.Pending
import WorkerHost.Proofs.Channel.Unsent

/-!
# A call of the host that is withdrawn

A call of the host enters the table before its message is sent, so others see its entry until it is
withdrawn. Other calls, answers and the closing of the end fall in between. Taking the entry and the
caller out of every state of such a run leaves a run of all the others (`Step.without`): nothing but
a skipped number tells that the call was ever made.

* `HostSide.Stretch.without`: a run with a call that is never sent, without that call;
* `unsent_call_leaves_nothing`: what is left of a call that could not be sent, at either end.
-/

namespace WorkerHost

/-- Whether it happens to the call of this number. -/
def HostHeard.isOf (id : CallId) : HostHeard → Bool
  | entered a | sent a | resolved a _ _ | rejected a | withdrawn a | returned a _ | abandoned a =>
    a == id
  | took .. | unplugged => false

/-- A log without what happens to one of the calls. -/
def heardWithout (id : CallId) (log : List HostHeard) : List HostHeard :=
  log.filter (!·.isOf id)

@[simp] lemma heardWithout_append (id : CallId) (log more : List HostHeard) :
    heardWithout id (log ++ more) = heardWithout id log ++ heardWithout id more :=
  List.filter_append ..

namespace HostEndpoint
variable {H : Type} {e e' : HostEndpoint H} {id : CallId}

lemma remove_remove (e : HostEndpoint H) (id : CallId) : (e.remove id).remove id = e.remove id := by
  simp [remove, List.filter_filter]

lemma remove_comm (e : HostEndpoint H) (a b : CallId) :
    (e.remove a).remove b = (e.remove b).remove a := by
  simp [remove, List.filter_filter, Bool.and_comm]

lemma enter_remove (hne : ⟨e.nextId⟩ ≠ id) : e.enter.remove id = (e.remove id).enter := by
  simp [enter, remove, List.filter_append, hne]

lemma mem_remove {a : CallId} (hne : a ≠ id) : a ∈ (e.remove id).pending ↔ a ∈ e.pending := by
  simp [remove, hne]

lemma remove_eq_self (hid : id ∉ e.pending) : e.remove id = e := by
  rw [remove, filter_ne_of_not_mem hid]

lemma managed_remove (h : e.Managed e') (id : CallId) : (e.remove id).Managed (e'.remove id) := by
  cases h with
  | register h =>
    obtain ⟨hs, hadd, h⟩ := bind_eq_ok.1 h
    cases h
    exact .register (bind_eq_ok.2 ⟨hs, hadd, rfl⟩)
  | unregister method => exact .unregister method
  | expose callable => exact .expose callable
  | release handle => exact .release handle

end HostEndpoint

namespace HostSide

/-- A step, or nothing at all. -/
inductive Maybe {H : Type} : HostSide H → List HostHeard → HostSide H → Prop where
  | none (s : HostSide H) : Maybe s [] s
  | step {s more s'} (h : Step s more s') : Maybe s more s'

variable {H : Type} {s s' u : HostSide H} {log more : List HostHeard} {id : CallId}
  {front back : List Caller} {c : Caller}

/-- The host's side without one of its calls: without its entry, and without its caller. -/
def without (s : HostSide H) (id : CallId) : HostSide H :=
  { s with endpoint := s.endpoint.remove id, callers := s.callers.filter (·.id != id) }

/-- The host's side after a number has been skipped. -/
def skip (s : HostSide H) : HostSide H :=
  { s with endpoint := s.endpoint.skip }

/-- The call has not been sent as far as its callers go. -/
def Unsent (s : HostSide H) (id : CallId) : Prop :=
  ∀ c ∈ s.callers, c.id = id → c.stage ≠ .waiting

lemma filter_callers (hne : c.id ≠ id) :
    (front ++ c :: back).filter (·.id != id) =
      front.filter (·.id != id) ++ c :: back.filter (·.id != id) := by
  rw [List.filter_append, List.filter_cons_of_pos (by simpa using hne)]

lemma filter_callers_self :
    (front ++ c :: back).filter (·.id != c.id) = (front ++ back).filter (·.id != c.id) := by
  rw [List.filter_append, List.filter_cons_of_neg (by simp), ← List.filter_append]

lemma callers_without (hc : s.callers = front ++ c :: back) (hne : c.id ≠ id) :
    (s.without id).callers = front.filter (·.id != id) ++ c :: back.filter (·.id != id) := by
  rw [← filter_callers hne, ← hc]
  rfl

/-- Giving outcomes to callers, and taking the callers of one call out. -/
lemma filter_give (id : CallId) (ids ids' : List CallId) (o : CallOutcome)
    (hids : ∀ a, a ≠ id → (a ∈ ids ↔ a ∈ ids')) (cs : List Caller) :
    (cs.map (Caller.give ids o)).filter (·.id != id) =
      (cs.filter (·.id != id)).map (Caller.give ids' o) := by
  rw [List.filter_map]
  have hsame : ((fun c : Caller => c.id != id) ∘ Caller.give ids o) = fun c => c.id != id := by
    funext c
    rw [Function.comp_apply, c.id_give]
  rw [hsame]
  refine List.map_congr_left fun c hc => ?_
  have hne : c.id ≠ id := by simpa using (List.mem_filter.1 hc).2
  simp only [Caller.give, hids c.id hne]

lemma heardWithout_of_ne {x : HostHeard} (hx : x.isOf id = false) : heardWithout id [x] = [x] := by
  simp [heardWithout, hx]

/-- What a call leaves behind that gives up its entry is its own. -/
lemma heardWithout_withdrawal_self :
    heardWithout id (s.withdrawal id ++ [.returned id (.error .closed)]) = [] := by
  unfold withdrawal
  split <;> simp [heardWithout, HostHeard.isOf]

lemma heardWithout_withdrawal {a : CallId} (hne : a ≠ id) :
    heardWithout id (s.withdrawal a ++ [.returned a (.error .closed)]) =
      (s.without id).withdrawal a ++ [.returned a (.error .closed)] := by
  have hpending : a ∈ (s.without id).endpoint.pending ↔ a ∈ s.endpoint.pending :=
    HostEndpoint.mem_remove hne
  simp only [withdrawal, hpending]
  split <;> simp [heardWithout, HostHeard.isOf, hne]

/-- A message that answers the call is, without it, for no call. -/
lemma take_without (s : HostSide H) (id : CallId) (hp : Heap) (m : Message) :
    heardWithout id (s.take hp m).1 = ((s.without id).take hp m).1 ∧
      (s.take hp m).2.without id = ((s.without id).take hp m).2 := by
  have htook : heardWithout id [.took m hp] = [.took m hp] := heardWithout_of_ne rfl
  rcases s.take_cases hp m with ⟨hquiet, heq⟩ | ⟨hm, hid, -⟩
  · rcases (s.without id).take_cases hp m with ⟨-, heq'⟩ | ⟨hm', hid', -⟩
    · rw [heq, heq']
      exact ⟨htook, rfl⟩
    · have hin : m.id ∈ s.endpoint.pending := (List.mem_filter.1 hid').1
      rcases hquiet with hcall | hout
      · rw [hcall] at hm'
        cases hm'
      · exact absurd hin hout
  · obtain ⟨o, h', ho⟩ := Message.exists_outcome hm hp
    have htake (t : HostSide H) (hin : m.id ∈ t.endpoint.pending) :
        t.take hp m = ([.took m hp, .resolved m.id o h'],
          { t with
            endpoint := t.endpoint.remove m.id
            callers := t.callers.map (.give [m.id] o) }) := by
      unfold take
      rw [HostEndpoint.dispatch_eq ho hin]
      rfl
    by_cases hself : m.id = id
    · subst hself
      have hout : m.id ∉ (s.without m.id).endpoint.pending := by
        simp [HostSide.without, HostEndpoint.remove]
      have hgive := filter_give m.id [m.id] [] o (fun a ha => by simp [ha]) s.callers
      have hnobody : Caller.give [] o = id := by
        funext c
        simp [Caller.give]
      rw [hnobody, List.map_id] at hgive
      rcases (s.without m.id).take_cases hp m with ⟨-, heq'⟩ | ⟨-, hin, -⟩
      · rw [htake s hid, heq']
        refine ⟨by simp [heardWithout, HostHeard.isOf], ?_⟩
        simp only [HostSide.without, hgive, HostEndpoint.remove_remove]
      · exact absurd hin hout
    · have hin : m.id ∈ (s.without id).endpoint.pending := (HostEndpoint.mem_remove hself).2 hid
      have hgive := filter_give id [m.id] [m.id] o (fun _ _ => Iff.rfl) s.callers
      rw [htake s hid, htake _ hin]
      refine ⟨by simp [heardWithout, HostHeard.isOf, hself], ?_⟩
      simp only [HostSide.without, hgive, HostEndpoint.remove_comm s.endpoint m.id id]

/-- What the end rejects when it empties its table is rejected without the call too, but for the
call itself. -/
lemma drain_without (s : HostSide H) (id : CallId) :
    heardWithout id (s.endpoint.pending.map .rejected) =
        (s.without id).endpoint.pending.map .rejected ∧
      HostSide.without
        { s with
          endpoint := s.endpoint.drain
          callers := s.callers.map (.give s.endpoint.pending (.error .closed))
          closing := .finished } id =
        { s.without id with
          endpoint := (s.without id).endpoint.drain
          callers := (s.without id).callers.map
            (.give (s.without id).endpoint.pending (.error .closed))
          closing := .finished } := by
  constructor
  · rw [heardWithout, List.filter_map]
    rfl
  · have hcallers := filter_give id s.endpoint.pending (s.endpoint.remove id).pending
      (.error .closed) (fun a ha => (HostEndpoint.mem_remove ha).symm) s.callers
    simp only [HostSide.without, hcallers]
    rfl

/-- What the tasks do by themselves they do without the call too, or it is a step of that call and
nothing is left of it. -/
lemma Own.without (h : Own s more s') (hsent : .sent id ∉ more) (hunsent : s.Unsent id) :
    Maybe (s.without id) (heardWithout id more) (s'.without id) := by
  cases h with
  | @send front c back m q hc hstage hsend =>
    have hne : c.id ≠ id := by
      rintro rfl
      exact hsent (List.mem_singleton_self _)
    have hown := Own.send (s := s.without id) (callers_without hc hne) hstage hsend
    rw [heardWithout_of_ne (by simpa [HostHeard.isOf] using hne)]
    rw [← filter_callers (c := { c with stage := .waiting }) hne] at hown
    exact .step (.own hown)
  | @refuse front c back m hc hstage hsend =>
    by_cases heq : c.id = id
    · subst heq
      have hsame : HostSide.without
          { s with callers := front ++ { c with stage := .refused } :: back } c.id =
          s.without c.id := by
        simp only [HostSide.without, hc, filter_callers_self]
        rw [filter_callers_self (c := { c with stage := .refused })]
      rw [hsame]
      exact .none _
    · have hown := Own.refuse (s := s.without id) (callers_without hc heq) hstage hsend
      rw [← filter_callers (c := { c with stage := .refused }) heq] at hown
      exact .step (.own hown)
  | @withdraw front c back hc hstage =>
    by_cases heq : c.id = id
    · subst heq
      have hsame : HostSide.without
          { s with endpoint := s.endpoint.remove c.id, callers := front ++ back } c.id =
          s.without c.id := by
        simp only [HostSide.without, hc, filter_callers_self, HostEndpoint.remove_remove]
      rw [hsame, heardWithout_withdrawal_self]
      exact .none _
    · have hown := Own.withdraw (s := s.without id) (callers_without hc heq) hstage
      rw [← List.filter_append] at hown
      rw [heardWithout_withdrawal heq]
      have hremove : (s.without id).endpoint.remove c.id = (s.endpoint.remove c.id).remove id :=
        HostEndpoint.remove_comm ..
      rw [hremove] at hown
      exact .step (.own hown)
  | @deliver front c back o hc hstage hslot =>
    have hne : c.id ≠ id := fun heq => hunsent c (by simp [hc]) heq hstage
    have hown := Own.deliver (s := s.without id) (callers_without hc hne) hstage hslot
    rw [← List.filter_append] at hown
    rw [heardWithout_of_ne (by simpa [HostHeard.isOf] using hne)]
    exact .step (.own hown)
  | @dispatch m q hp htaking hreceive =>
    obtain ⟨hlog, hafter⟩ := s.take_without id hp m
    have hstate : HostSide.without
        { (s.take hp m).2 with link := { s.link with toHost := q } } id =
        { ((s.without id).take hp m).2 with link := { s.link with toHost := q } } := by
      rw [← hafter]
      rfl
    rw [hlog, hstate]
    exact .step (.own (.dispatch (s := s.without id) hp htaking hreceive))
  | stop htaking hended => exact .step (.own (.stop htaking hended))
  | shut hstopped hopen => exact .step (.own (.shut hstopped hopen))
  | unplug hclosing => exact .step (.own (.unplug hclosing))
  | drain hclosing =>
    obtain ⟨hlog, hafter⟩ := s.drain_without id
    rw [hlog, hafter]
    exact .step (.own (.drain (s := s.without id) hclosing))
  | leave hover => exact .step (.own (.leave hover))

/-- Every step is, without the call, a step still, or it is a step of that call and nothing is left
of it. -/
lemma Step.without (h : Step s more s') (hentered : .entered id ∉ more) (hsent : .sent id ∉ more)
    (hunsent : s.Unsent id) : Maybe (s.without id) (heardWithout id more) (s'.without id) := by
  cases h with
  | own hown => exact hown.without hsent hunsent
  | @enter hp xs args target hpack =>
    have hne : ⟨s.endpoint.nextId⟩ ≠ id := by
      rintro rfl
      exact hentered (List.mem_singleton_self _)
    rw [heardWithout_of_ne (by simpa [HostHeard.isOf] using hne)]
    have hstep := Step.enter (s := s.without id) target hpack
    have hafter : HostSide.without
        { s with
          endpoint := s.endpoint.enter
          callers := s.callers ++ [⟨⟨s.endpoint.nextId⟩,
            .entered (.call ⟨s.endpoint.nextId⟩ target args), none⟩] } id =
        { s.without id with
          endpoint := (s.without id).endpoint.enter
          callers := (s.without id).callers ++ [⟨⟨s.endpoint.nextId⟩,
            .entered (.call ⟨s.endpoint.nextId⟩ target args), none⟩] } := by
      simp only [HostSide.without, HostEndpoint.enter_remove hne]
      rw [filter_callers (by exact hne), List.filter_nil]
    rw [hafter]
    exact .step hstep
  | @abandon front c back hc hstage =>
    have hne : c.id ≠ id := fun heq => hunsent c (by simp [hc]) heq hstage
    have hstep := Step.abandon (s := s.without id) (callers_without hc hne) hstage
    rw [← List.filter_append] at hstep
    rw [heardWithout_of_ne (by simpa [HostHeard.isOf] using hne)]
    exact .step hstep
  | flag hclosing => exact .step (.flag hclosing)
  | answer m => exact .step (.answer m)
  | manage hmanaged => exact .step (.manage (HostEndpoint.managed_remove hmanaged id))

/-- A call that is not sent in a step has not been sent after it. -/
lemma Step.unsent (h : Step s more s') (hsent : .sent id ∉ more) (hunsent : s.Unsent id) :
    s'.Unsent id := by
  have hgive (ids : List CallId) (o : CallOutcome) :
      ∀ c ∈ s.callers.map (Caller.give ids o), c.id = id → c.stage ≠ .waiting := by
    intro c hc
    obtain ⟨d, hd, rfl⟩ := List.mem_map.1 hc
    rw [d.id_give, d.stage_give]
    exact hunsent d hd
  cases h with
  | own hown =>
    cases hown with
    | @send front c back m q hc hstage hsend =>
      have hne : c.id ≠ id := by
        rintro rfl
        exact hsent (List.mem_singleton_self _)
      intro d hd hid
      rcases List.mem_append.1 hd with hd | hd
      · exact hunsent d (by simp [hc, hd]) hid
      · rcases List.mem_cons.1 hd with rfl | hd
        · exact absurd hid hne
        · exact hunsent d (by simp [hc, hd]) hid
    | @refuse front c back m hc hstage hsend =>
      intro d hd hid
      rcases List.mem_append.1 hd with hd | hd
      · exact hunsent d (by simp [hc, hd]) hid
      · rcases List.mem_cons.1 hd with rfl | hd
        · exact nofun
        · exact hunsent d (by simp [hc, hd]) hid
    | withdraw hc => exact fun d hd => hunsent d (mem_callers_of_other hc hd)
    | deliver hc => exact fun d hd => hunsent d (mem_callers_of_other hc hd)
    | dispatch hp htaking hreceive =>
      rcases s.take_cases hp _ with ⟨-, heq⟩ | ⟨-, -, o, h', -, heq⟩
      · rw [heq]
        exact hunsent
      · rw [heq]
        exact hgive _ o
    | drain hclosing => exact hgive _ _
    | stop => exact hunsent
    | shut => exact hunsent
    | unplug => exact hunsent
    | leave => exact hunsent
  | enter target hpack =>
    intro d hd hid
    rcases List.mem_append.1 hd with hd | hd
    · exact hunsent d hd hid
    · rw [List.mem_singleton.1 hd]
      exact nofun
  | abandon hc => exact fun d hd => hunsent d (mem_callers_of_other hc hd)
  | flag => exact hunsent
  | answer => exact hunsent
  | manage => exact hunsent

/-! ## Runs -/

/-- What happens on the host's side from some moment on, one step after another, while whoever holds
the other end does what it likes. -/
inductive Stretch (s : HostSide H) : List HostHeard → HostSide H → Prop where
  | stop : Stretch s [] s
  | step {log u more v} (before : Stretch s log u) (h : Step u more v) : Stretch s (log ++ more) v
  | peer {log u l} (before : Stretch s log u)
      (h : l.toWorker.sending = u.link.toWorker.sending) : Stretch s log { u with link := l }

lemma Step.stretch (h : Step s more s') : Stretch s more s' :=
  Stretch.stop.step h

lemma Stretch.run {name : String} (stretch : Stretch s more u) (before : Run name s log) :
    Run name u (log ++ more) := by
  induction stretch with
  | stop =>
    rw [List.append_nil]
    exact before
  | step earlier h ih =>
    rw [← List.append_assoc]
    exact ih.step h
  | peer earlier h ih => exact ih.peer h

lemma Stretch.maybe (stretch : Stretch s log u) {v : HostSide H} (h : Maybe u more v) :
    Stretch s (log ++ more) v := by
  cases h with
  | none =>
    rw [List.append_nil]
    exact stretch
  | step h => exact stretch.step h

/-- A run in which a call is not sent and its number not given again is, without the call, a run of
all the others. -/
lemma Stretch.without (stretch : Stretch s more u) (hentered : .entered id ∉ more)
    (hsent : .sent id ∉ more) (hunsent : s.Unsent id) :
    Stretch (s.without id) (heardWithout id more) (u.without id) ∧ u.Unsent id := by
  induction stretch with
  | stop => exact ⟨.stop, hunsent⟩
  | step before h ih =>
    simp only [List.mem_append, not_or] at hentered hsent
    obtain ⟨hstretch, hunsent'⟩ := ih hentered.1 hsent.1
    rw [heardWithout_append]
    exact ⟨hstretch.maybe (h.without hentered.2 hsent.2 hunsent'), h.unsent hsent.2 hunsent'⟩
  | peer before h ih =>
    obtain ⟨hstretch, hunsent'⟩ := ih hentered hsent
    exact ⟨hstretch.peer h, hunsent'⟩

/-- The host's side when a call has entered the table and is about to send its message. -/
def begun (s : HostSide H) (target : Target) (args : Wire) : HostSide H :=
  { s with
    endpoint := s.endpoint.enter
    callers := s.callers ++ [⟨⟨s.endpoint.nextId⟩,
      .entered (.call ⟨s.endpoint.nextId⟩ target args), none⟩] }

/-- A call that has just entered the table has a number of its own, so without it there is what
there was before, and a number has been skipped. -/
lemma Sound.begun_without (h : Sound s log) (hbound : (enteredIn log).length < 2 ^ 64)
    (target : Target) (args : Wire) :
    (s.begun target args).without ⟨s.endpoint.nextId⟩ = s.skip ∧
      (s.begun target args).Unsent ⟨s.endpoint.nextId⟩ := by
  have hnew := h.table.next_not_entered hbound
  have hothers : ∀ c ∈ s.callers, c.id ≠ ⟨s.endpoint.nextId⟩ := by
    intro c hc heq
    exact hnew (heq ▸ h.callers.once.subset (List.mem_append_right _ (List.mem_map_of_mem hc)))
  have hfresh : ⟨s.endpoint.nextId⟩ ∉ s.endpoint.pending := fun hin => hnew (h.table.entered hin)
  have hcallers : s.callers.filter (·.id != ⟨s.endpoint.nextId⟩) = s.callers := by
    rw [List.filter_eq_self]
    intro c hc
    rw [bne_iff_ne]
    exact hothers c hc
  constructor
  · simp only [begun, HostSide.without, HostEndpoint.remove_enter hfresh, List.filter_append,
      hcallers]
    rw [List.filter_cons_of_neg (by simp), List.filter_nil, List.append_nil]
    rfl
  · intro c hc hid
    rcases List.mem_append.1 hc with hc | hc
    · exact absurd hid (hothers c hc)
    · rw [List.mem_singleton.1 hc]
      exact nofun

/-- How a call that is never sent leaves no trace: `s` is the side that it is made on, `u` what has
become of it, and `more` what has been heard meanwhile. -/
structure Undone (s : HostSide H) (id : CallId) (more : List HostHeard) (u : HostSide H) :
    Prop where
  /-- without the call, all this is what can happen to an end that has skipped its number -/
  others : Stretch s.skip (heardWithout id more) (u.without id)
  outcome : ∀ o, .returned id o ∈ more → o = .error .closed
  /-- once its caller is gone, there is nothing of the call to be taken out -/
  gone : id ∉ u.callers.map (·.id) → u.without id = u
  /-- where no link takes its message, it can return, and then it is gone -/
  returns : id ∈ u.callers.map (·.id) → ¬ u.link.toWorker.Joined →
    ∃ last, Stretch u last (u.without id) ∧ .returned id (.error .closed) ∈ last

/-- A call that is not sent returns by itself where no link takes its message. -/
lemma Sound.exists_withdrawal (h : Sound s log) (hbound : (enteredIn log).length ≤ 2 ^ 64)
    (hunsent : s.Unsent id) (hid : id ∈ s.callers.map (·.id)) (hgone : ¬ s.link.toWorker.Joined) :
    ∃ last, Stretch s last (s.without id) ∧ .returned id (.error .closed) ∈ last := by
  obtain ⟨c, hin, rfl⟩ := List.mem_map.1 hid
  obtain ⟨front, back, hc⟩ := List.append_of_mem hin
  have hrest : s.callers.filter (·.id != c.id) = front ++ back := by
    rw [hc, filter_callers_self, List.filter_eq_self]
    intro d hd
    rw [bne_iff_ne]
    exact h.other hbound hc d hd
  have hafter : s.without c.id =
      { s with endpoint := s.endpoint.remove c.id, callers := front ++ back } := by
    rw [HostSide.without, hrest]
  have hreturned : .returned c.id (.error .closed) ∈
      s.withdrawal c.id ++ [.returned c.id (.error .closed)] :=
    List.mem_append_right _ (List.mem_singleton_self _)
  refine ⟨_, ?_, hreturned⟩
  rw [hafter]
  cases hstage : c.stage with
  | waiting => exact absurd hstage (hunsent c hin rfl)
  | refused => exact (Step.own (.withdraw hc hstage)).stretch
  | entered m =>
    have hrefuse := (Step.own (.refuse hc hstage (Queue.send?_eq_none hgone m))).stretch
    exact hrefuse.step (.own (.withdraw (c := { c with stage := .refused }) rfl rfl))

/-- Whatever falls between the steps of a call that is never sent, the call leaves no trace. -/
lemma Run.undone {name : String} (run : Run name s log) {h : Heap} {xs : List Value} {args : Wire}
    (target : Target) (hpack : packArgs h xs = .ok args)
    (stretch : Stretch (s.begun target args) more u)
    (hbound : (enteredIn (log ++ [.entered ⟨s.endpoint.nextId⟩] ++ more)).length ≤ 2 ^ 64)
    (hsent : .sent ⟨s.endpoint.nextId⟩ ∉ more) : Undone s ⟨s.endpoint.nextId⟩ more u := by
  have hbegun : Run name (s.begun target args) (log ++ [.entered ⟨s.endpoint.nextId⟩]) :=
    run.step (.enter target hpack)
  have hsound := (stretch.run hbegun).sound hbound
  have hbefore : (enteredIn log).length < 2 ^ 64 := by
    rw [enteredIn_append, enteredIn_append, List.length_append, List.length_append] at hbound
    have hone : (enteredIn [.entered ⟨s.endpoint.nextId⟩]).length = 1 := rfl
    omega
  have hnew := (run.sound hbefore.le).table.next_not_entered hbefore
  obtain ⟨hskip, hunsent⟩ := (run.sound hbefore.le).begun_without hbefore target args
  -- the number is given once, and no message has been sent under it
  have hentered : .entered ⟨s.endpoint.nextId⟩ ∉ more := by
    have hnodup := hsound.table.numbered.nodup hbound
    rw [enteredIn_append] at hnodup
    have hapart := List.disjoint_of_nodup_append hnodup
    refine fun hin => hapart ?_ (mem_enteredIn.2 hin)
    rw [enteredIn_append]
    exact List.mem_append_right _ (List.mem_singleton_self _)
  have hnever : .sent ⟨s.endpoint.nextId⟩ ∉ log ++ [.entered ⟨s.endpoint.nextId⟩] ++ more := by
    simp only [List.mem_append, List.mem_singleton, reduceCtorEq, or_false, not_or]
    exact ⟨fun hold => hnew ((run.sound hbefore.le).callers.sent _ hold), hsent⟩
  obtain ⟨hothers, hstill⟩ := stretch.without hentered hsent hunsent
  refine ⟨hskip ▸ hothers, ?_, ?_, hsound.exists_withdrawal hbound hstill⟩
  · intro o ho
    obtain ⟨front, back, rfl⟩ := List.append_of_mem ho
    rw [← List.append_assoc] at hsound
    have hreturns : Returns (log ++ [.entered ⟨s.endpoint.nextId⟩] ++ front)
        ⟨s.endpoint.nextId⟩ o := hsound.told _ _ back rfl
    cases hreturns with
    | given hin =>
      rw [← List.append_assoc] at hnever
      exact absurd (List.mem_append_left _ hin) hnever
    | refused => rfl
  · intro hgone
    have hpending : ⟨s.endpoint.nextId⟩ ∉ u.endpoint.pending :=
      fun hin => hgone (hsound.callers.there _ hin hnever)
    have hcallers : u.callers.filter (·.id != ⟨s.endpoint.nextId⟩) = u.callers := by
      rw [List.filter_eq_self]
      intro c hc
      rw [bne_iff_ne]
      exact fun heq => hgone (heq ▸ List.mem_map_of_mem hc)
    rw [HostSide.without, HostEndpoint.remove_eq_self hpending, hcallers]

end HostSide

/-! ## Calls that can not be sent -/

/-- What becomes of a call of the worker that can not be sent. -/
structure WorkerSide.CallUndone {σ WH β : Type} (HH : Type) [HasHeap σ] (ps : WorkerPrograms σ WH)
    (w : WorkerSide σ WH β) (c : HostCall) : Prop where
  shut : w.endpoint.closed = true → w.startCall c = (.error .closed, w)
  /-- one whose arguments reach a function has not begun -/
  unpacked : w.endpoint.closed = false →
    ∀ v ∈ c.args, ∀ f, (HasHeap.heap w.state).Reaches v (.function f) →
      ∃ err, w.startCall c = (.error (.codec err), w)
  /-- one that no link takes has been outstanding for a moment, and nothing shows of it later -/
  lost : w.endpoint.closed = false → ∀ args, packArgs (HasHeap.heap w.state) c.args = .ok args →
    w.link.toHost.send? (.call ⟨w.endpoint.nextId⟩ c.target args) = none →
      w.startCall c = (.error .closed, w.skip) ∧
      (⟨w.endpoint.nextId⟩ ∉ w.endpoint.outstanding →
        w.skip = w.setEndpoint (w.endpoint.enter.remove ⟨w.endpoint.nextId⟩)) ∧
      ∀ (log : List (Heard HH WH)) (v : WorkerSide σ WH β),
        (∃ n, Onward ps w.skip log (v.renumber n)) ↔ ∃ n, Onward ps w log (v.renumber n)

/-- What becomes of a call of the host that can not be sent, if nothing falls in between. -/
structure HostEndpoint.CallUndone {H : Type} (e : HostEndpoint H) (l : Link) (h : Heap)
    (target : Target) (xs : List Value) : Prop where
  unpacked : ∀ v ∈ xs, ∀ f, h.Reaches v (.function f) →
    ∃ err, e.startCall l h target xs = (.error (.codec err), e, l)
  lost : ∀ args, packArgs h xs = .ok args →
    l.toWorker.send? (.call ⟨e.nextId⟩ target args) = none →
    e.startCall l h target xs = (.error .closed, e.skip, l) ∧
    (⟨e.nextId⟩ ∉ e.pending → e.skip = e.enter.remove ⟨e.nextId⟩) ∧
    ∀ (seen : List HostSeen) (e' : HostEndpoint H) (l' : Link),
      (∃ n, e.skip.Later l seen (e'.renumber n) l') ↔ ∃ n, e.Later l seen (e'.renumber n) l'

/-- A call that can not be sent leaves both ends as they were. If a function is among what its
arguments reach, it has changed nothing at all. If no link takes it, it returns that the channel is
closed, a number has been skipped, and whatever happens later could have happened without it. On
the host that goes for all that falls between the steps of the call too. -/
theorem unsent_call_leaves_nothing {σ HH WH β H : Type} [HasHeap σ] (ps : WorkerPrograms σ WH)
    (name : String) :
    (∀ (w : WorkerSide σ WH β) (c : HostCall), w.CallUndone HH ps c) ∧
    (∀ (e : HostEndpoint H) (l : Link) (h : Heap) (target : Target) (xs : List Value),
      e.CallUndone l h target xs) ∧
    ∀ (s u : HostSide H) (log more : List HostHeard) (h : Heap) (target : Target)
      (xs : List Value) (args : Wire), HostSide.Run name s log → packArgs h xs = .ok args →
      HostSide.Stretch (s.begun target args) more u →
      (enteredIn (log ++ [.entered ⟨s.endpoint.nextId⟩] ++ more)).length ≤ 2 ^ 64 →
      .sent ⟨s.endpoint.nextId⟩ ∉ more → HostSide.Undone s ⟨s.endpoint.nextId⟩ more u := by
  refine ⟨?worker, ?host, ?between⟩
  case worker =>
    intro w c
    constructor
    · exact fun hclosed => if_pos hclosed
    · intro hopen v hv f hf
      have hclosed : ¬ w.endpoint.closed = true := by simp [hopen]
      obtain ⟨err, herr⟩ := packArgs_eq_error hv hf
      refine ⟨err, ?_⟩
      simp only [WorkerSide.startCall, herr]
      exact if_neg hclosed
    · intro hopen args hpack hsend
      have hclosed : ¬ w.endpoint.closed = true := by simp [hopen]
      have hgone := Queue.not_joined_of_send? hsend
      refine ⟨?_, fun hfresh => (WorkerSide.remove_enter hfresh).symm,
        fun log v => WorkerSide.onward_skip_iff hgone⟩
      rw [WorkerSide.startCall_of_not_joined hgone, if_neg hclosed, hpack]
  case host =>
    intro e l h target xs
    constructor
    · intro v hv f hf
      obtain ⟨err, herr⟩ := packArgs_eq_error hv hf
      refine ⟨err, ?_⟩
      simp only [HostEndpoint.startCall, herr]
    · intro args hpack hsend
      have hgone := Queue.not_joined_of_send? hsend
      refine ⟨?_, fun hfresh => (HostEndpoint.remove_enter hfresh).symm,
        fun seen e' l' => HostEndpoint.later_skip_iff hgone⟩
      rw [HostEndpoint.startCall_of_not_joined hgone, hpack]
      rfl
  case between =>
    intro s u log more h target xs args run hpack stretch hbound hsent
    exact run.undone target hpack stretch hbound hsent

/-- Both ends have lost their receivers, and each makes a call. The host closes its end after it has
found that out and before the call returns. -/
theorem unsent_call_leaves_nothing_unheard :
    let link : Link := ⟨Queue.new.dropReceiver, Queue.new.dropReceiver⟩
    let w : WorkerSide Heap Unit Unit := ⟨⟨.new "worker", [], .idle⟩, link, .empty⟩
    let s : HostSide Unit := ⟨.new "host", link, [], .before, .taking⟩
    w.startCall ⟨.method "ping", []⟩ = (.error .closed, w.skip) ∧
    (∃ err, w.startCall ⟨.method "ping", [.function ⟨0, "f", .nothing⟩]⟩ =
      (.error (.codec err), w)) ∧
    s.endpoint.startCall link .empty (.method "ping") [] = (.error .closed, s.endpoint.skip, link) ∧
    ∃ args u more, HostSide.Stretch (s.begun (.method "ping") args) more u ∧
      .returned ⟨1⟩ (.error .closed) ∈ more ∧ u.endpoint.closed = true ∧
      HostSide.Undone s ⟨1⟩ more u := by
  intro link w s
  obtain ⟨args, hpack⟩ := Pair.exists_packArgs_nil .empty
  obtain ⟨hworker, hhost, hbetween⟩ :=
    @unsent_call_leaves_nothing Heap Unit Unit Unit Unit _ Pair.nullPrograms "host"
  have hrun : HostSide.Run "host" s [] := .peer .new rfl
  have hrefused := (HostSide.Step.own
    (.refuse (s := s.begun (.method "ping") args) rfl rfl rfl)).stretch
  have hflagged := hrefused.step (.flag rfl)
  have hstretch := hflagged.step (.own (.withdraw rfl rfl))
  refine ⟨((hworker w ⟨.method "ping", []⟩).lost rfl args hpack rfl).1, ?_,
    ((hhost s.endpoint link .empty (.method "ping") []).lost args hpack rfl).1, args, _,
    [.withdrawn ⟨1⟩, .returned ⟨1⟩ (.error .closed)], hstretch, by simp, rfl, ?_⟩
  · exact (hworker w _).unpacked rfl _ (List.mem_singleton_self _) _ .refl
  · exact hbetween _ _ _ _ .empty _ [] args hrun hpack hstretch Nat.one_le_two_pow (by simp)

end WorkerHost
