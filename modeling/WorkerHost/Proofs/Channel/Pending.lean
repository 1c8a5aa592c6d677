import WorkerHost.Proofs.Channel.Caller

/-!
# The pending table of the host

Every call of the host has an entry in the table from its first step on. The entry leaves the table
once: with the first answer, or when the end closes, or because the message could not be sent. Until
then no answer has been taken, and afterwards the outcome is what left the table with the entry.

* `HostEndpoint.Table`, `HostSide.Callers`, `HostSide.Shut`: the table, the callers and the closing
  of the end against the log;
* `HostSide.Sound.step`: every step keeps all this;
* `HostSide.Run.sound`: so it holds at every moment of every run.
-/

namespace WorkerHost

/-! ## The table -/

/-- What a pending table has to do with the log: the numbers have been given in their order, every
entry leaves the table once, and no answer has come for one that is there. -/
structure HostEndpoint.Table {H : Type} (e : HostEndpoint H) (log : List HostHeard) : Prop where
  numbered : Numbered (enteredIn log)
  next : (⟨e.nextId⟩ : CallId) = callNumber (enteredIn log).length
  once : (removedIn log ++ e.pending).Perm (enteredIn log)
  unanswered : ∀ id ∈ e.pending, answersTo id log = []

namespace HostEndpoint.Table
variable {H : Type} {e e' : HostEndpoint H} {log more : List HostHeard} {id : CallId}

lemma entered (h : e.Table log) (hid : id ∈ e.pending) : id ∈ enteredIn log :=
  h.once.subset (List.mem_append_right _ hid)

lemma pending_nodup (h : e.Table log) (hbound : (enteredIn log).length ≤ 2 ^ 64) :
    e.pending.Nodup :=
  ((h.once.nodup_iff.2 (h.numbered.nodup hbound)).sublist (List.sublist_append_right _ _))

/-- As long as the numbers suffice, the next call is new. -/
lemma next_not_entered (h : e.Table log) (hbound : (enteredIn log).length < 2 ^ 64) :
    (⟨e.nextId⟩ : CallId) ∉ enteredIn log := by
  rw [h.next]
  exact h.numbered.next_not_mem hbound

lemma enter (h : e.Table log) (hbound : (enteredIn log).length < 2 ^ 64) :
    e.enter.Table (log ++ [.entered ⟨e.nextId⟩]) := by
  have hentered : enteredIn (log ++ [.entered ⟨e.nextId⟩]) = enteredIn log ++ [⟨e.nextId⟩] :=
    enteredIn_append
  constructor
  · rw [hentered]
    exact h.numbered.push h.next
  · rw [hentered, List.length_append, List.length_singleton]
    exact callNumber_succ h.next
  · rw [hentered, removedIn_append]
    show List.Perm (removedIn log ++ [] ++ (e.pending ++ [⟨e.nextId⟩])) _
    rw [List.append_nil, ← List.append_assoc]
    exact h.once.append_right _
  · intro id hid
    rcases List.mem_append.1 hid with hold | hnew
    · rw [answersTo_append (h.entered hold), h.unanswered id hold]
      rfl
    · rw [List.mem_singleton] at hnew
      rw [hnew, answersTo_of_not_entered (h.next_not_entered hbound)]
      exact since_eq_nil rfl

/-- Entries leave the table, and what is heard says which. -/
lemma append (h : e.Table log) (hnext : e'.nextId = e.nextId) (hentered : enteredIn more = [])
    (hremoved : (removedIn more ++ e'.pending).Perm e.pending)
    (hquiet : ∀ id ∈ e'.pending, more.filterMap (HostHeard.answerTo? id) = []) :
    e'.Table (log ++ more) := by
  have hsame : enteredIn (log ++ more) = enteredIn log := by
    rw [enteredIn_append, hentered, List.append_nil]
  constructor
  · rw [hsame]
    exact h.numbered
  · rw [hsame, hnext]
    exact h.next
  · rw [hsame, removedIn_append, List.append_assoc]
    exact (hremoved.append_left _).trans h.once
  · intro id hid
    have hold : id ∈ e.pending := hremoved.subset (List.mem_append_right _ hid)
    rw [answersTo_append (h.entered hold), h.unanswered id hold, hquiet id hid]
    rfl

end HostEndpoint.Table

/-- One entry is taken out of a table that has it once. -/
lemma remove_perm {H : Type} {e : HostEndpoint H} {id : CallId} (hnodup : e.pending.Nodup)
    (hid : id ∈ e.pending) : ([id] ++ (e.remove id).pending).Perm e.pending := by
  have herase : (e.remove id).pending = e.pending.erase id :=
    (List.Nodup.erase_eq_filter hnodup id).symm
  rw [herase]
  exact (List.perm_cons_erase hid).symm

/-! ## The callers -/

/-- A call has been given an outcome: that of an answer, or that the channel is closed. -/
inductive Given (log : List HostHeard) (id : CallId) : CallOutcome → Prop where
  | answered {o h} (hresolved : .resolved id o h ∈ log) : Given log id o
  | closed (hrejected : .rejected id ∈ log) : Given log id (.error .closed)

/-- A caller has an entry or an outcome, and it waits if its message is sent. -/
structure Caller.Fits (pending : List CallId) (log : List HostHeard) (c : Caller) : Prop where
  free : c.slot = none → c.id ∈ pending
  given : ∀ o, c.slot = some o → c.id ∉ pending ∧ Given log c.id o
  stage : .sent c.id ∈ log ↔ c.stage = .waiting

lemma Given.append {log more : List HostHeard} {id : CallId} {o : CallOutcome}
    (h : Given log id o) : Given (log ++ more) id o := by
  cases h with
  | answered hresolved => exact .answered (List.mem_append_left _ hresolved)
  | closed hrejected => exact .closed (List.mem_append_left _ hrejected)

/-- What happens to other calls does not touch a caller. -/
lemma Caller.Fits.append {pending pending' : List CallId} {log more : List HostHeard} {c : Caller}
    (h : c.Fits pending log) (hpending : c.id ∈ pending' ↔ c.id ∈ pending)
    (hsent : .sent c.id ∉ more) : c.Fits pending' (log ++ more) := by
  constructor
  · intro hslot
    exact hpending.2 (h.free hslot)
  · intro o hslot
    obtain ⟨hout, hgiven⟩ := h.given o hslot
    exact ⟨fun hin => hout (hpending.1 hin), hgiven.append⟩
  · rw [List.mem_append, ← h.stage]
    exact ⟨fun hor => hor.resolve_right hsent, .inl⟩

namespace HostSide
variable {H : Type}

/-- What the callers have to do with the table and the log. -/
structure Callers (s : HostSide H) (log : List HostHeard) : Prop where
  once : (overIn log ++ s.callers.map (·.id)).Perm (enteredIn log)
  fits : ∀ c ∈ s.callers, c.Fits s.endpoint.pending log
  sent : ∀ id, .sent id ∈ log → id ∈ enteredIn log
  there : ∀ id ∈ s.endpoint.pending, .sent id ∉ log → id ∈ s.callers.map (·.id)

/-- What closing has to do with the table and the log. -/
structure Shut (s : HostSide H) (log : List HostHeard) : Prop where
  flagged : s.closing ≠ .before → s.endpoint.closed = true
  before : s.closing = .before → s.endpoint.closed = false ∧ ∀ id, .rejected id ∉ log
  unplugged : .unplugged ∈ log ↔ s.closing = .unplugged ∨ s.closing = .finished
  sender : .unplugged ∈ log → s.link.toWorker.sending = false
  drained : s.closing = .finished → ∀ id ∈ s.endpoint.pending, .sent id ∉ log

/-- What a call returns: what it has been given, or that the channel is closed because its message
could not be sent. -/
inductive Returns (log : List HostHeard) (id : CallId) : CallOutcome → Prop where
  | given {o} (hsent : .sent id ∈ log) (hgiven : Given log id o) : Returns log id o
  | refused (hnot : .sent id ∉ log) : Returns log id (.error .closed)

/-- What may happen to a call when so much has happened before. -/
def Right (log : List HostHeard) : HostHeard → Prop
  | .sent _ => .unplugged ∉ log
  | .resolved id o h => ∃ m hp, answersTo id log = [(m, hp)] ∧ m.Carries hp o h
  | .rejected id => answersTo id log = []
  | .withdrawn id => .sent id ∉ log
  | .returned id o => Returns log id o
  | _ => True

/-- Everything is as it should be. -/
structure Sound (s : HostSide H) (log : List HostHeard) : Prop where
  table : s.endpoint.Table log
  callers : s.Callers log
  shut : s.Shut log
  told : Told Right log

variable {s s' : HostSide H} {log more : List HostHeard} {front back : List Caller} {c : Caller}

/-- No two callers have one number. -/
lemma Sound.other (h : Sound s log) (hbound : (enteredIn log).length ≤ 2 ^ 64)
    (hc : s.callers = front ++ c :: back) : ∀ d ∈ front ++ back, d.id ≠ c.id := by
  have hnodup := h.callers.once.nodup_iff.2 (h.table.numbered.nodup hbound)
  have hids := hnodup.sublist (List.sublist_append_right _ _)
  rw [hc, List.map_append, List.map_cons, List.nodup_middle, List.nodup_cons,
    ← List.map_append] at hids
  exact fun d hd heq => hids.1 (heq ▸ List.mem_map_of_mem hd)

lemma mem_callers (hc : s.callers = front ++ c :: back) : c ∈ s.callers := by
  rw [hc]
  exact List.mem_append_right _ List.mem_cons_self

lemma mem_callers_of_other {d : Caller} (hc : s.callers = front ++ c :: back)
    (hd : d ∈ front ++ back) : d ∈ s.callers := by
  rw [hc]
  exact ((List.sublist_cons_self c back).append_left front).subset hd

/-- The message of a call that does not wait is not sent. -/
lemma Sound.not_sent (h : Sound s log) (hc : s.callers = front ++ c :: back)
    (hstage : c.stage ≠ .waiting) : .sent c.id ∉ log :=
  mt (h.callers.fits c (mem_callers hc)).stage.1 hstage

/-- Steps that touch neither calls nor closing. -/
lemma Sound.congr (h : Sound s log) (hnext : s'.endpoint.nextId = s.endpoint.nextId)
    (hpending : s'.endpoint.pending = s.endpoint.pending)
    (hclosed : s'.endpoint.closed = s.endpoint.closed) (hcallers : s'.callers = s.callers)
    (hclosing : s'.closing = s.closing)
    (hsending : s'.link.toWorker.sending = s.link.toWorker.sending) : Sound s' log := by
  refine ⟨⟨h.table.numbered, hnext ▸ h.table.next, ?_, ?_⟩, ⟨?_, ?_, h.callers.sent, ?_⟩,
    ⟨?_, ?_, ?_, ?_, ?_⟩, h.told⟩
  · rw [hpending]
    exact h.table.once
  · rw [hpending]
    exact h.table.unanswered
  · rw [hcallers]
    exact h.callers.once
  · rw [hcallers, hpending]
    exact h.callers.fits
  · rw [hcallers, hpending]
    exact h.callers.there
  · rw [hclosing, hclosed]
    exact h.shut.flagged
  · rw [hclosing, hclosed]
    exact h.shut.before
  · rw [hclosing]
    exact h.shut.unplugged
  · rw [hsending]
    exact h.shut.sender
  · rw [hclosing, hpending]
    exact h.shut.drained

/-- Closing goes no further while nothing is sent and no entries are added. -/
lemma Shut.append (h : s.Shut log) (hclosing : s'.closing = s.closing)
    (hclosed : s'.endpoint.closed = s.endpoint.closed)
    (hsending : s'.link.toWorker.sending = s.link.toWorker.sending)
    (hpending : ∀ id ∈ s'.endpoint.pending, id ∈ s.endpoint.pending)
    (hmore : ∀ x ∈ more, x.stirs = false) : s'.Shut (log ++ more) := by
  have hold {x : HostHeard} (hx : x.stirs = true) : x ∈ log ++ more ↔ x ∈ log := by
    rw [List.mem_append]
    refine ⟨fun hor => hor.resolve_right fun hin => ?_, .inl⟩
    rw [hmore x hin] at hx
    cases hx
  constructor
  · rw [hclosing, hclosed]
    exact h.flagged
  · rw [hclosing, hclosed]
    intro hbefore
    exact ⟨(h.before hbefore).1, fun id => mt (hold rfl).1 ((h.before hbefore).2 id)⟩
  · rw [hold rfl, hclosing]
    exact h.unplugged
  · rw [hold rfl, hsending]
    exact h.sender
  · rw [hclosing]
    exact fun hfinished id hid => mt (hold rfl).1 (h.drained hfinished id (hpending id hid))

/-- What happens that concerns no call leaves the callers as they are. -/
lemma Callers.append (h : s.Callers log) (hcallers : s'.callers = s.callers)
    (hpending : s'.endpoint.pending = s.endpoint.pending) (hentered : enteredIn more = [])
    (hover : overIn more = []) (hunsent : ∀ id, .sent id ∉ more) : s'.Callers (log ++ more) := by
  constructor
  · rw [hcallers, overIn_append, enteredIn_append, hover, hentered, List.append_nil,
      List.append_nil]
    exact h.once
  · rw [hcallers, hpending]
    exact fun c hc => (h.fits c hc).append Iff.rfl (hunsent _)
  · intro id hmem
    rw [enteredIn_append]
    exact List.mem_append_left _ (h.sent id ((List.mem_append.1 hmem).resolve_right (hunsent id)))
  · rw [hcallers, hpending]
    exact fun id hid hnot => h.there id hid fun hold => hnot (List.mem_append_left _ hold)

lemma Sound.enter (h : Sound s log) (hbound : (enteredIn log).length < 2 ^ 64) (m : Message) :
    Sound
      { s with
        endpoint := s.endpoint.enter
        callers := s.callers ++ [⟨⟨s.endpoint.nextId⟩, .entered m, none⟩] }
      (log ++ [.entered ⟨s.endpoint.nextId⟩]) := by
  have hfresh := h.table.next_not_entered hbound
  have hsent : .sent ⟨s.endpoint.nextId⟩ ∉ log := fun hin => hfresh (h.callers.sent _ hin)
  refine ⟨h.table.enter hbound, ⟨?_, ?_, ?_, ?_⟩, ⟨h.shut.flagged, ?_, ?_, ?_, ?_⟩,
    h.told.append (told_singleton trivial)⟩
  · rw [overIn_append, enteredIn_append, List.map_append]
    show List.Perm (overIn log ++ [] ++ (s.callers.map (·.id) ++ [⟨s.endpoint.nextId⟩])) _
    rw [List.append_nil, ← List.append_assoc]
    exact h.callers.once.append_right _
  · intro c hc
    rcases List.mem_append.1 hc with hold | hnew
    · have hid : c.id ∈ enteredIn log :=
        h.callers.once.subset (List.mem_append_right _ (List.mem_map_of_mem hold))
      have hne : c.id ≠ ⟨s.endpoint.nextId⟩ := fun heq => hfresh (heq ▸ hid)
      refine (h.callers.fits c hold).append ?_ (by simp)
      simp [HostEndpoint.enter, hne]
    · rw [List.mem_singleton] at hnew
      rw [hnew]
      refine ⟨fun _ => by simp [HostEndpoint.enter], by simp, ?_⟩
      simp [hsent]
  · intro id hin
    rw [enteredIn_append]
    exact List.mem_append_left _ (h.callers.sent id (by simpa using hin))
  · intro id hid hnot
    rw [List.map_append]
    rcases List.mem_append.1 hid with hold | hnew
    · exact List.mem_append_left _ (h.callers.there id hold (by simpa using hnot))
    · exact List.mem_append_right _ hnew
  · intro hbefore
    obtain ⟨hclosed, hnone⟩ := h.shut.before hbefore
    exact ⟨hclosed, fun id => by simpa using hnone id⟩
  · simpa using h.shut.unplugged
  · simpa using h.shut.sender
  · intro hfinished id hid
    rcases List.mem_append.1 hid with hold | hnew
    · simpa using h.shut.drained hfinished id hold
    · rw [List.mem_singleton] at hnew
      rw [hnew]
      simpa using hsent

/-- A caller goes on to another stage. -/
lemma Sound.replace (h : Sound s log) (hbound : (enteredIn log).length ≤ 2 ^ 64)
    (hc : s.callers = front ++ c :: back) {stage : CallStage} (l : Link)
    (hsent : ∀ id, .sent id ∈ more → id = c.id)
    (hstage : .sent c.id ∈ log ++ more ↔ stage = .waiting) (hentered : enteredIn more = [])
    (hover : overIn more = []) :
    Callers { s with link := l, callers := front ++ { c with stage := stage } :: back }
      (log ++ more) := by
  have hids : (front ++ { c with stage := stage } :: back).map (·.id) = s.callers.map (·.id) := by
    rw [hc, List.map_append, List.map_append]
    rfl
  have hin : c ∈ s.callers := mem_callers hc
  have hother := h.other hbound hc
  constructor
  · rw [hids, overIn_append, enteredIn_append, hover, hentered, List.append_nil, List.append_nil]
    exact h.callers.once
  · intro d hd
    have hcases : d = { c with stage := stage } ∨ d ∈ front ++ back := by
      rcases List.mem_append.1 hd with hfront | hback
      · exact .inr (List.mem_append_left _ hfront)
      · exact (List.mem_cons.1 hback).imp_right (List.mem_append_right _)
    rcases hcases with rfl | hd
    · have hfits := h.callers.fits c hin
      exact ⟨hfits.free, fun o ho => ⟨(hfits.given o ho).1, (hfits.given o ho).2.append⟩, hstage⟩
    · have hold : d ∈ s.callers := mem_callers_of_other hc hd
      exact (h.callers.fits d hold).append Iff.rfl fun hmem => hother d hd (hsent _ hmem)
  · intro id hmem
    rw [enteredIn_append]
    refine List.mem_append_left _ ?_
    rcases List.mem_append.1 hmem with hold | hnew
    · exact h.callers.sent id hold
    · rw [hsent id hnew]
      exact h.callers.once.subset (List.mem_append_right _ (List.mem_map_of_mem hin))
  · intro id hid hnot
    rw [hids]
    exact h.callers.there id hid fun hold => hnot (List.mem_append_left _ hold)

lemma Sound.send (h : Sound s log) (hbound : (enteredIn log).length ≤ 2 ^ 64)
    (hc : s.callers = front ++ c :: back) {m : Message} {q : Queue}
    (hsend : s.link.toWorker.send? m = some q) :
    Sound
      { s with
        link := { s.link with toWorker := q }
        callers := front ++ { c with stage := .waiting } :: back }
      (log ++ [.sent c.id]) := by
  -- a message that is sent has a sender
  have hnot : .unplugged ∉ log := by
    intro hmem
    have hgone := h.shut.sender hmem
    rw [Queue.send?_eq_none (fun hjoined => by simp [hjoined.sending] at hgone)] at hsend
    cases hsend
  have hnotFinished : s.closing ≠ .finished := fun heq => hnot (h.shut.unplugged.2 (.inr heq))
  refine ⟨h.table.append rfl rfl .rfl fun _ _ => rfl,
    h.replace hbound hc _ (by simp) (by simp) rfl rfl,
    ⟨h.shut.flagged, ?_, ?_, ?_, fun heq => absurd heq hnotFinished⟩,
    h.told.append (told_singleton ?_)⟩
  · intro hbefore
    obtain ⟨hclosed, hnone⟩ := h.shut.before hbefore
    exact ⟨hclosed, fun id => by simpa using hnone id⟩
  · simpa using h.shut.unplugged
  · intro hmem
    exact absurd (by simpa using hmem) hnot
  · show HostHeard.unplugged ∉ log ++ []
    rw [List.append_nil]
    exact hnot

lemma Sound.refuse (h : Sound s log) (hbound : (enteredIn log).length ≤ 2 ^ 64)
    (hc : s.callers = front ++ c :: back) {m : Message} (hstage : c.stage = .entered m) :
    Sound { s with callers := front ++ { c with stage := .refused } :: back } log := by
  have hunsent : .sent c.id ∉ log := h.not_sent hc (by simp [hstage])
  have hcallers : Callers { s with callers := front ++ { c with stage := .refused } :: back }
      (log ++ []) :=
    h.replace hbound hc s.link (by simp) (by simpa using hunsent) rfl rfl
  rw [List.append_nil] at hcallers
  exact ⟨h.table, hcallers, ⟨h.shut.flagged, h.shut.before, h.shut.unplugged, h.shut.sender,
    h.shut.drained⟩, h.told⟩

/-- A caller is gone, and so is the entry that it may have had. -/
lemma Sound.gone (h : Sound s log) (hbound : (enteredIn log).length ≤ 2 ^ 64)
    (hc : s.callers = front ++ c :: back) {e : HostEndpoint H} (hover : overIn more = [c.id])
    (hentered : enteredIn more = []) (hunsent : ∀ id, .sent id ∉ more)
    (hpending : ∀ id ≠ c.id, id ∈ e.pending ↔ id ∈ s.endpoint.pending)
    (hleft : c.id ∈ e.pending → .sent c.id ∈ log) :
    Callers { s with endpoint := e, callers := front ++ back } (log ++ more) := by
  have hother := h.other hbound hc
  have hids : ([c.id] ++ (front ++ back).map (·.id)).Perm (s.callers.map (·.id)) := by
    rw [hc, List.map_append, List.map_append, List.map_cons, List.singleton_append]
    exact List.perm_middle.symm
  constructor
  · rw [overIn_append, enteredIn_append, hover, hentered, List.append_nil, List.append_assoc]
    exact (hids.append_left _).trans h.callers.once
  · intro d hd
    have hold : d ∈ s.callers := mem_callers_of_other hc hd
    exact (h.callers.fits d hold).append (hpending _ (hother d hd)) (hunsent _)
  · intro id hmem
    rw [enteredIn_append]
    exact List.mem_append_left _
      (h.callers.sent id ((List.mem_append.1 hmem).resolve_right (hunsent id)))
  · intro id hid hnot
    have hnotBefore : .sent id ∉ log := fun hold => hnot (List.mem_append_left _ hold)
    have hne : id ≠ c.id := fun heq => hnotBefore (heq ▸ hleft (heq ▸ hid))
    have hin := h.callers.there id ((hpending id hne).1 hid) hnotBefore
    exact (List.mem_cons.1 (hids.symm.subset hin)).resolve_left hne

lemma Sound.withdraw (h : Sound s log) (hbound : (enteredIn log).length ≤ 2 ^ 64)
    (hc : s.callers = front ++ c :: back) (hstage : c.stage = .refused) :
    Sound { s with endpoint := s.endpoint.remove c.id, callers := front ++ back }
      (log ++ (s.withdrawal c.id ++ [.returned c.id (.error .closed)])) := by
  have hunsent : .sent c.id ∉ log := h.not_sent hc (by simp [hstage])
  have hpending (id : CallId) (hne : id ≠ c.id) :
      id ∈ (s.endpoint.remove c.id).pending ↔ id ∈ s.endpoint.pending := by
    simp [HostEndpoint.remove, hne]
  have hout : c.id ∉ (s.endpoint.remove c.id).pending := by simp [HostEndpoint.remove]
  have hsub : ∀ id ∈ (s.endpoint.remove c.id).pending, id ∈ s.endpoint.pending :=
    fun id hid => (List.mem_filter.1 hid).1
  have hshut (more : List HostHeard) (hmore : ∀ x ∈ more, x.stirs = false) :
      Shut { s with endpoint := s.endpoint.remove c.id, callers := front ++ back } (log ++ more) :=
    h.shut.append rfl rfl rfl hsub hmore
  unfold withdrawal
  by_cases hentry : c.id ∈ s.endpoint.pending
  · rw [if_pos hentry]
    refine ⟨h.table.append rfl rfl ?_ fun _ _ => rfl,
      h.gone hbound hc rfl rfl (by simp) hpending fun hmem => absurd hmem hout,
      hshut _ (by simp [HostHeard.stirs]), h.told.append (.cons ?_ (told_singleton ?_))⟩
    · exact remove_perm (h.table.pending_nodup hbound) hentry
    · show HostHeard.sent c.id ∉ log ++ []
      simpa using hunsent
    · exact .refused (by simpa using hunsent)
  · rw [if_neg hentry]
    have hsame : (s.endpoint.remove c.id).pending = s.endpoint.pending :=
      filter_ne_of_not_mem hentry
    refine ⟨h.table.append rfl rfl (hsame ▸ .rfl) fun _ _ => rfl,
      h.gone hbound hc rfl rfl (by simp) hpending fun hmem => absurd hmem hout,
      hshut _ (by simp [HostHeard.stirs]), h.told.append (told_singleton ?_)⟩
    exact .refused (by simpa using hunsent)

/-- A call that waits returns, or whoever waits for it stops waiting; its entry stays. -/
lemma Sound.stopWaiting (h : Sound s log) (hbound : (enteredIn log).length ≤ 2 ^ 64)
    (hc : s.callers = front ++ c :: back) (hstage : c.stage = .waiting) {x : HostHeard}
    (hover : x.over? = some c.id) (hx : Right log x) :
    Sound { s with callers := front ++ back } (log ++ [x]) := by
  have hsent : .sent c.id ∈ log := (h.callers.fits c (mem_callers hc)).stage.2 hstage
  have hquiet : x.stirs = false ∧ enteredIn [x] = [] ∧ removedIn [x] = [] ∧
      overIn [x] = [c.id] ∧ ∀ id, [x].filterMap (HostHeard.answerTo? id) = [] := by
    cases x <;> cases hover <;> exact ⟨rfl, rfl, rfl, rfl, fun _ => rfl⟩
  obtain ⟨hstirs, hentered, hremoved, hover, hanswers⟩ := hquiet
  have hunsent (id : CallId) : .sent id ∉ [x] := by
    intro hmem
    rw [← List.mem_singleton.1 hmem] at hstirs
    cases hstirs
  refine ⟨h.table.append rfl hentered ?_ fun id _ => hanswers id,
    h.gone hbound hc hover hentered hunsent (fun _ _ => Iff.rfl) fun _ => hsent,
    h.shut.append rfl rfl rfl (fun _ hid => hid) ?_, h.told.append (told_singleton ?_)⟩
  · rw [hremoved]
    exact .rfl
  · intro y hy
    rw [List.mem_singleton.1 hy]
    exact hstirs
  · rw [List.append_nil]
    exact hx

/-- A message is taken, and it is for no call. -/
lemma Sound.took (h : Sound s log) (m : Message) (hp : Heap)
    (hquiet : m.isAnswer = false ∨ m.id ∉ s.endpoint.pending) : Sound s (log ++ [.took m hp]) := by
  refine ⟨h.table.append rfl rfl .rfl fun id hid => ?_,
    h.callers.append rfl rfl rfl rfl (by simp),
    h.shut.append rfl rfl rfl (fun _ hid => hid) (by simp [HostHeard.stirs]),
    h.told.append (told_singleton trivial)⟩
  · have hnot : ¬ (m.isAnswer = true ∧ m.id = id) := by
      rintro ⟨hm, rfl⟩
      rcases hquiet with hcall | hout
      · rw [hcall] at hm
        cases hm
      · exact hout hid
    simp [HostHeard.answerTo?, hnot]

/-- Some callers are given an outcome, and their entries are taken out. -/
lemma Sound.give (h : Sound s log) {ids : List CallId} {o : CallOutcome} {e : HostEndpoint H}
    (hpending : ∀ id, id ∈ e.pending ↔ id ∈ s.endpoint.pending ∧ id ∉ ids)
    (hgiven : ∀ id ∈ ids, Given (log ++ more) id o) (hover : overIn more = [])
    (hentered : enteredIn more = []) (hunsent : ∀ id, .sent id ∉ more) :
    Callers { s with endpoint := e, callers := s.callers.map (.give ids o) } (log ++ more) := by
  have hids : (s.callers.map (Caller.give ids o)).map (·.id) = s.callers.map (·.id) := by
    rw [List.map_map]
    exact List.map_congr_left fun c _ => c.id_give ids o
  constructor
  · rw [hids, overIn_append, enteredIn_append, hover, hentered, List.append_nil, List.append_nil]
    exact h.callers.once
  · intro d hd
    obtain ⟨c, hc, rfl⟩ := List.mem_map.1 hd
    have hfits := h.callers.fits c hc
    unfold Caller.give
    by_cases hid : c.id ∈ ids
    · rw [if_pos hid]
      refine ⟨fun hnone => by simp at hnone, fun o' ho' => ?_, ?_⟩
      · obtain rfl : o = o' := Option.some.inj ho'
        exact ⟨fun hin => ((hpending _).1 hin).2 hid, hgiven _ hid⟩
      · rw [List.mem_append, ← hfits.stage]
        exact ⟨fun hor => hor.resolve_right (hunsent _), .inl⟩
    · rw [if_neg hid]
      refine hfits.append ?_ (hunsent _)
      rw [hpending]
      exact ⟨And.left, fun hin => ⟨hin, hid⟩⟩
  · intro id hmem
    rw [enteredIn_append]
    exact List.mem_append_left _
      (h.callers.sent id ((List.mem_append.1 hmem).resolve_right (hunsent id)))
  · intro id hid hnot
    rw [hids]
    exact h.callers.there id ((hpending id).1 hid).1 fun hold => hnot (List.mem_append_left _ hold)

/-- A message goes to the call that it answers, or it is for no call. -/
lemma take_cases (s : HostSide H) (h : Heap) (m : Message) :
    ((m.isAnswer = false ∨ m.id ∉ s.endpoint.pending) ∧ s.take h m = ([.took m h], s)) ∨
    (m.isAnswer = true ∧ m.id ∈ s.endpoint.pending ∧ ∃ o h', m.Carries h o h' ∧
      s.take h m = ([.took m h, .resolved m.id o h'],
        { s with
          endpoint := s.endpoint.remove m.id
          callers := s.callers.map (.give [m.id] o) })) := by
  unfold take
  rcases s.endpoint.dispatch_cases h m with ⟨hm, id, target, args, heq⟩ |
    ⟨hm, hid, o, h', hcarries, heq⟩ | ⟨hm, hid, h', heq⟩
  · rw [heq]
    exact .inl ⟨.inl hm, rfl⟩
  · rw [heq]
    exact .inr ⟨hm, hid, o, h', hcarries, rfl⟩
  · rw [heq]
    exact .inl ⟨.inr hid, rfl⟩

lemma Sound.take (h : Sound s log) (hbound : (enteredIn log).length ≤ 2 ^ 64) (hp : Heap)
    (m : Message) : Sound (s.take hp m).2 (log ++ (s.take hp m).1) := by
  rcases s.take_cases hp m with ⟨hquiet, heq⟩ | ⟨hm, hid, o, h', hcarries, heq⟩
  · rw [heq]
    exact h.took m hp hquiet
  · rw [heq]
    have hpending (id : CallId) : id ∈ (s.endpoint.remove m.id).pending ↔
        id ∈ s.endpoint.pending ∧ id ∉ [m.id] := by
      simp [HostEndpoint.remove]
    refine ⟨h.table.append rfl rfl ?_ fun id hin => ?_,
      h.give hpending (fun id hin => ?_) rfl rfl (by simp),
      h.shut.append rfl rfl rfl (fun id hin => ((hpending id).1 hin).1) (by simp [HostHeard.stirs]),
      h.told.append (.cons trivial (told_singleton ?_))⟩
    · exact remove_perm (h.table.pending_nodup hbound) hid
    · have hne : m.id ≠ id := fun heq => ((hpending id).1 hin).2 (by simp [heq])
      simp [HostHeard.answerTo?, hne]
    · rw [List.mem_singleton.1 hin]
      exact .answered (h := h') (by simp)
    · -- the answer is the first one, since the call was still in the table
      refine ⟨m, hp, ?_, hcarries⟩
      rw [answersTo_append (h.table.entered hid), h.table.unanswered _ hid]
      simp [HostHeard.answerTo?, hm]

lemma Sound.drain (h : Sound s log) (hclosing : s.closing = .unplugged) :
    Sound
      { s with
        endpoint := s.endpoint.drain
        callers := s.callers.map (.give s.endpoint.pending (.error .closed))
        closing := .finished }
      (log ++ s.endpoint.pending.map .rejected) := by
  have hremoved : removedIn (s.endpoint.pending.map .rejected) = s.endpoint.pending := by
    rw [removedIn, List.filterMap_map]
    exact List.filterMap_some
  have hnone {α : Type} (pick : HostHeard → Option α) (hpick : ∀ id, pick (.rejected id) = none)
      (ids : List CallId) : (ids.map HostHeard.rejected).filterMap pick = [] := by
    rw [List.filterMap_map, List.filterMap_eq_nil_iff]
    exact fun id _ => hpick id
  have hentered : enteredIn (s.endpoint.pending.map .rejected) = [] := hnone _ (fun _ => rfl) _
  have hover : overIn (s.endpoint.pending.map .rejected) = [] := hnone _ (fun _ => rfl) _
  have hmark : .unplugged ∈ log := h.shut.unplugged.2 (.inl hclosing)
  have hcallers : Callers
      { s with
        endpoint := s.endpoint.drain
        callers := s.callers.map (.give s.endpoint.pending (.error .closed)) }
      (log ++ s.endpoint.pending.map .rejected) :=
    h.give (by simp [HostEndpoint.drain]) (fun id hid => .closed (by simp [hid])) hover hentered
      (by simp)
  refine ⟨h.table.append rfl hentered ?_ (by simp [HostEndpoint.drain]),
    ⟨hcallers.once, hcallers.fits, hcallers.sent, hcallers.there⟩, ⟨fun _ => ?_, ?_, ?_, ?_, ?_⟩,
    h.told.append fun pre x post heq => ?_⟩
  · rw [hremoved]
    exact .of_eq (List.append_nil _)
  · exact h.shut.flagged (by rw [hclosing]; simp)
  · exact fun hbefore => by cases hbefore
  · exact ⟨fun _ => .inr rfl, fun _ => List.mem_append_left _ hmark⟩
  · exact fun _ => h.shut.sender hmark
  · exact fun _ id hid => absurd hid List.not_mem_nil
  · have hx : x ∈ s.endpoint.pending.map .rejected := by
      rw [heq]
      simp
    obtain ⟨id, hid, rfl⟩ := List.mem_map.1 hx
    obtain ⟨front, back, -, rfl, -⟩ := List.map_eq_append_iff.1 heq
    show answersTo id _ = []
    rw [answersTo_append (h.table.entered hid), h.table.unanswered id hid, hnone _ (fun _ => rfl)]
    rfl

lemma take_link (s : HostSide H) (h : Heap) (m : Message) : (s.take h m).2.link = s.link := by
  unfold take
  split
  · rfl
  · rfl

/-- Setting the flag is the first step of closing, whoever does it. -/
lemma Sound.flag (h : Sound s log) (hclosing : s.closing = .before) (d : Dispatcher) :
    Sound { s with endpoint := s.endpoint.flag, closing := .flagged, dispatcher := d } log := by
  have hnot : .unplugged ∉ log := by
    rw [h.shut.unplugged, hclosing]
    simp
  refine ⟨⟨h.table.numbered, h.table.next, h.table.once, h.table.unanswered⟩,
    ⟨h.callers.once, h.callers.fits, h.callers.sent, h.callers.there⟩, ⟨?_, ?_, ?_, ?_, ?_⟩,
    h.told⟩
  · exact fun _ => rfl
  · exact fun heq => nomatch heq
  · simpa using hnot
  · exact fun hmem => absurd hmem hnot
  · exact fun heq => nomatch heq

lemma Sound.unplug (h : Sound s log) (hclosing : s.closing = .flagged) :
    Sound
      { s with
        link := { s.link with toWorker := s.link.toWorker.dropSender }
        closing := .unplugged }
      (log ++ [.unplugged]) := by
  refine ⟨h.table.append rfl rfl .rfl fun _ _ => rfl,
    h.callers.append rfl rfl rfl rfl (by simp), ⟨?_, ?_, ?_, ?_, ?_⟩,
    h.told.append (told_singleton trivial)⟩
  · exact fun _ => h.shut.flagged (by simp [hclosing])
  · exact fun heq => nomatch heq
  · simp
  · exact fun _ => rfl
  · exact fun heq => nomatch heq

/-- What the tasks at the end do by themselves keeps everything as it should be. -/
lemma Sound.own (h : Sound s log) (hbound : (enteredIn log).length ≤ 2 ^ 64)
    (own : Own s more s') : Sound s' (log ++ more) := by
  cases own with
  | send hc hstage hsend => exact h.send hbound hc hsend
  | refuse hc hstage hsend =>
    rw [List.append_nil]
    exact h.refuse hbound hc hstage
  | withdraw hc hstage => exact h.withdraw hbound hc hstage
  | @deliver front c back o hc hstage hslot =>
    have hin : c ∈ s.callers := by
      rw [hc]
      exact List.mem_append_right _ List.mem_cons_self
    have hfits := h.callers.fits c hin
    exact h.stopWaiting hbound hc hstage rfl
      (.given (hfits.stage.2 hstage) (hfits.given o hslot).2)
  | dispatch hp htaking hreceive =>
    refine (h.take hbound hp _).congr rfl rfl rfl rfl rfl ?_
    rw [take_link]
  | stop htaking hended =>
    rw [List.append_nil]
    exact h.congr rfl rfl rfl rfl rfl rfl
  | shut hstopped hopen =>
    rw [List.append_nil]
    exact h.flag hopen _
  | unplug hclosing => exact h.unplug hclosing
  | drain hclosing => exact h.drain hclosing
  | leave hover =>
    rw [List.append_nil]
    exact h.congr rfl rfl rfl rfl rfl rfl

/-- Whatever happens on the host's side keeps everything as it should be. -/
lemma Sound.step (h : Sound s log) (step : Step s more s')
    (hbound : (enteredIn (log ++ more)).length ≤ 2 ^ 64) : Sound s' (log ++ more) := by
  have hbefore : (enteredIn log).length ≤ 2 ^ 64 := by
    rw [enteredIn_append, List.length_append] at hbound
    omega
  cases step with
  | own hown => exact h.own hbefore hown
  | enter target hpack =>
    refine h.enter ?_ _
    rw [enteredIn_append, List.length_append] at hbound
    exact hbound
  | abandon hc hstage => exact h.stopWaiting hbefore hc hstage rfl trivial
  | flag hclosing =>
    rw [List.append_nil]
    exact h.flag hclosing _
  | answer m =>
    rw [List.append_nil]
    exact h.congr rfl rfl rfl rfl rfl (HostEndpoint.post_sending s.link m)
  | manage hmanaged =>
    obtain ⟨hnext, hpending⟩ := hmanaged.unchanged
    rw [List.append_nil]
    exact h.congr hnext hpending hmanaged.closed.1 rfl rfl rfl

/-- Everything is as it should be at every moment of every run in which the numbers suffice. -/
lemma Run.sound {name : String} (run : Run name s log)
    (hbound : (enteredIn log).length ≤ 2 ^ 64) : Sound s log := by
  induction run with
  | new =>
    exact ⟨⟨rfl, rfl, .nil, fun _ hid => absurd hid List.not_mem_nil⟩,
      ⟨.nil, fun _ hc => absurd hc List.not_mem_nil, fun _ hid => absurd hid List.not_mem_nil,
        fun _ hid => absurd hid List.not_mem_nil⟩,
      ⟨fun h => absurd rfl h, fun _ => ⟨rfl, fun _ => List.not_mem_nil⟩, by simp, by simp,
        fun _ _ hid => absurd hid List.not_mem_nil⟩, told_nil _⟩
  | step before step ih =>
    refine (ih ?_).step step hbound
    rw [enteredIn_append, List.length_append] at hbound
    omega
  | peer before hpeer ih => exact (ih hbound).congr rfl rfl rfl rfl rfl hpeer

end HostSide
end WorkerHost
