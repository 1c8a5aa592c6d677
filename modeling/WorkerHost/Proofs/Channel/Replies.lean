import WorkerHost.Proofs.Channel.Agreement
import WorkerHost.Proofs.Channel.Pending
import WorkerHost.Proofs.Wire.Placement

/-!
# Which call of the host an answer goes to

While the end is open, the first answer that bears the number of a call is the call's outcome, in
whatever order answers arrive and whatever else the peer sends. All other answers change nothing.

* `Message.Carries.same`: what an answer carries does not depend on the heap that it is read in;
* `HostEndpoint.dispatchAll_perm`: nor does it depend on the order of arrival;
* `HostSide.Run.replies_matched`: numbers, the pending table and outcomes at every moment of a run.
-/

namespace WorkerHost

/-! ## Outcomes in two heaps -/

/-- One outcome, in two heaps. -/
inductive SameOutcome (h h' : Heap) : CallOutcome → CallOutcome → Prop where
  | value {v v'} (iso : Isomorphic h v h' v') : SameOutcome h h' (.ok v) (.ok v')
  | failure (e : ChannelError) : SameOutcome h h' (.error e) (.error e)

/-- What an answer carries does not depend on the heap that it is read in. -/
lemma Message.Carries.same {m : Message} {a a' b b' : Heap} {o o' : CallOutcome}
    (h : m.Carries a o b) (h' : m.Carries a' o' b') : SameOutcome b b' o o' := by
  cases h with
  | value hdecode =>
    obtain ⟨v₁, h₁, hdecode₁, iso⟩ := Wire.decode_isomorphic hdecode a'
    cases h' with
    | value hdecode' =>
      cases hdecode₁.symm.trans hdecode'
      exact .value iso
    | unreadable hdecode' => cases hdecode₁.symm.trans hdecode'
  | unreadable hdecode =>
    have hfails := Wire.decode_error_of_decode_error hdecode a'
    cases h' with
    | value hdecode' => cases hfails.symm.trans hdecode'
    | unreadable hdecode' =>
      cases hfails.symm.trans hdecode'
      exact .failure _
  | failure id e =>
    cases h'
    exact .failure _

/-- Reading an answer leaves what is in the heap as it is. -/
lemma Message.Carries.read {m : Message} {a b : Heap} {o : CallOutcome} (h : m.Carries a o b)
    {r : ℕ} (hr : r < a.size) : b.read r = a.read r := by
  cases h with
  | value hdecode => exact Wire.read_of_decode hdecode hr
  | unreadable => rfl
  | failure => rfl

/-! ## Orders of arrival -/

/-- The numbers of the answers among messages. -/
def answerIds (ms : List (Message × Heap)) : List CallId :=
  (ms.filter (·.1.isAnswer)).map (·.1.id)

namespace HostEndpoint
variable {H : Type} {e : HostEndpoint H} {ms ms' : List (Message × Heap)} {id : CallId}

/-- The host takes messages one after another, and reads each in a heap of its own. This gives the
calls that have their outcomes, with the heaps that these live in. -/
def dispatchAll (e : HostEndpoint H) :
    List (Message × Heap) → List (CallId × CallOutcome × Heap) × HostEndpoint H
  | [] => ([], e)
  | (m, h) :: rest =>
    match e.dispatch h m with
    | (.resolved id o, e, h') =>
      let (outcomes, e) := e.dispatchAll rest
      ((id, o, h') :: outcomes, e)
    | (_, e, _) => e.dispatchAll rest

/-- If no two answers bear one number, those for pending calls are these calls' outcomes. -/
lemma dispatchAll_eq (hnodup : (answerIds ms).Nodup) :
    (e.dispatchAll ms).2 = { e with pending := e.pending.filter (· ∉ answerIds ms) } ∧
    (e.dispatchAll ms).1.map (·.1) = (answerIds ms).filter (· ∈ e.pending) ∧
    ∀ id o h', (id, o, h') ∈ (e.dispatchAll ms).1 →
      ∃ m h, (m, h) ∈ ms ∧ m.isAnswer = true ∧ m.id = id ∧ m.Carries h o h' := by
  induction ms generalizing e with
  | nil => simp [dispatchAll, answerIds]
  | cons p rest ih =>
    obtain ⟨m, h⟩ := p
    rcases e.dispatch_cases h m with ⟨hm, id, target, args, heq⟩ |
      ⟨hm, hid, o, h', hcarries, heq⟩ | ⟨hm, hid, h', heq⟩
    · have hids : answerIds ((m, h) :: rest) = answerIds rest := by simp [answerIds, hm]
      rw [hids] at hnodup ⊢
      obtain ⟨hend, hresolved, houtcomes⟩ := ih (e := e) hnodup
      simp only [dispatchAll, heq]
      refine ⟨hend, hresolved, fun id o h' hmem => ?_⟩
      obtain ⟨m', hp, hin, hrest⟩ := houtcomes id o h' hmem
      exact ⟨m', hp, List.mem_cons_of_mem _ hin, hrest⟩
    · have hids : answerIds ((m, h) :: rest) = m.id :: answerIds rest := by simp [answerIds, hm]
      rw [hids] at hnodup ⊢
      obtain ⟨hnot, hnodup⟩ := List.nodup_cons.1 hnodup
      obtain ⟨hend, hresolved, houtcomes⟩ := ih (e := e.remove m.id) hnodup
      simp only [dispatchAll, heq]
      refine ⟨?_, ?_, fun id o' h'' hmem => ?_⟩
      · rw [hend]
        simp only [remove, List.filter_filter]
        congr 1
        refine List.filter_congr fun id _ => ?_
        by_cases hne : id = m.id <;> simp [hne, bne]
      · rw [List.map_cons, hresolved, List.filter_cons_of_pos (by simpa using hid)]
        congr 1
        refine List.filter_congr fun id hin => ?_
        -- the answers that follow are for other calls
        have hne : id ≠ m.id := fun heq => hnot (heq ▸ hin)
        simp [remove, hne]
      · rcases List.mem_cons.1 hmem with hfirst | hmem
        · cases hfirst
          exact ⟨m, h, List.mem_cons_self, hm, rfl, hcarries⟩
        · obtain ⟨m', hp, hin, hrest⟩ := houtcomes id o' h'' hmem
          exact ⟨m', hp, List.mem_cons_of_mem _ hin, hrest⟩
    · have hids : answerIds ((m, h) :: rest) = m.id :: answerIds rest := by simp [answerIds, hm]
      rw [hids] at hnodup ⊢
      obtain ⟨hend, hresolved, houtcomes⟩ := ih (e := e) (List.nodup_cons.1 hnodup).2
      simp only [dispatchAll, heq]
      refine ⟨?_, ?_, fun id o h' hmem => ?_⟩
      · rw [hend]
        congr 1
        refine List.filter_congr fun id hin => ?_
        have hne : id ≠ m.id := fun heq => hid (heq ▸ hin)
        simp [hne]
      · rw [hresolved, List.filter_cons_of_neg (by simpa using hid)]
      · obtain ⟨m', hp, hin, hrest⟩ := houtcomes id o h' hmem
        exact ⟨m', hp, List.mem_cons_of_mem _ hin, hrest⟩

lemma answerIds_perm (hperm : (ms.map (·.1)).Perm (ms'.map (·.1))) :
    (answerIds ms).Perm (answerIds ms') := by
  have hmap (l : List (Message × Heap)) :
      answerIds l = ((l.map (·.1)).filter Message.isAnswer).map Message.id := by
    rw [List.filter_map, List.map_map]
    rfl
  rw [hmap, hmap]
  exact (hperm.filter _).map _

/-- The order in which answers arrive, each for a call of its own, changes neither the table nor any
outcome. -/
theorem dispatchAll_perm (e : HostEndpoint H) (hnodup : (answerIds ms).Nodup)
    (hperm : (ms.map (·.1)).Perm (ms'.map (·.1))) :
    (e.dispatchAll ms).2 = (e.dispatchAll ms').2 ∧
    ((e.dispatchAll ms).1.map (·.1)).Perm ((e.dispatchAll ms').1.map (·.1)) ∧
    ∀ id o h o' h', (id, o, h) ∈ (e.dispatchAll ms).1 → (id, o', h') ∈ (e.dispatchAll ms').1 →
      SameOutcome h h' o o' := by
  have hids := answerIds_perm hperm
  obtain ⟨hend, hresolved, houtcomes⟩ := dispatchAll_eq (e := e) hnodup
  obtain ⟨hend', hresolved', houtcomes'⟩ := dispatchAll_eq (e := e) (hids.nodup_iff.1 hnodup)
  refine ⟨?_, ?_, fun id o h o' h' hmem hmem' => ?_⟩
  · rw [hend, hend']
    congr 1
    refine List.filter_congr fun id _ => ?_
    simp [hids.mem_iff]
  · rw [hresolved, hresolved']
    exact hids.filter _
  · obtain ⟨m, a, hin, hm, hid, hcarries⟩ := houtcomes id o h hmem
    obtain ⟨m', a', hin', hm', hid', hcarries'⟩ := houtcomes' id o' h' hmem'
    -- both are outcomes of the one answer with that number
    have hsame : m = m' := by
      obtain ⟨p, hp, heq⟩ : ∃ p ∈ ms, p.1 = m' := by
        have hmem := hperm.symm.subset (List.mem_map_of_mem (f := Prod.fst) hin')
        exact List.mem_map.1 hmem
      have hfilter : (m, a) ∈ ms.filter (·.1.isAnswer) := List.mem_filter.2 ⟨hin, hm⟩
      have hfilter' : p ∈ ms.filter (·.1.isAnswer) := List.mem_filter.2 ⟨hp, by rw [heq]; exact hm'⟩
      have hpair := List.inj_on_of_nodup_map hnodup hfilter hfilter'
        (by rw [heq]; exact hid.trans hid'.symm)
      rw [← heq, ← hpair]
    subst hsame
    exact hcarries.same hcarries'

end HostEndpoint

/-! ## Runs -/

/-- Numbers that are given one after another grow until they start again. -/
lemma Numbered.increasing {ids : List CallId} (h : Numbered ids) (hbound : ids.length < 2 ^ 64) :
    ids.Pairwise fun a b => a.id < b.id := by
  rw [h, List.pairwise_map]
  refine List.Pairwise.imp_of_mem (fun {k l} hk hl hlt => ?_) List.pairwise_lt_range
  have hlast := List.mem_range.1 hl
  exact counterAt_lt hlt (by omega)

namespace HostSide
variable {H : Type} {s : HostSide H} {log : List HostHeard}

/-- What holds of the calls of the host at any moment while its end is open. -/
structure Matched (s : HostSide H) (log : List HostHeard) : Prop where
  /-- no number is given twice, and each is greater than those before it until they start again -/
  numbers : (enteredIn log).Nodup ∧
    ((enteredIn log).length < 2 ^ 64 → (enteredIn log).Pairwise fun a b => a.id < b.id)
  /-- a call is in the table or it has left it, and that once; whether somebody still waits for it
  makes no difference -/
  pending : (removedIn log ++ s.endpoint.pending).Perm (enteredIn log)
  /-- the outcome of a call is what the first answer that bears its number carries -/
  first : ∀ pre post id o h, log = pre ++ .resolved id o h :: post →
    ∃ m hp, answersTo id pre = [(m, hp)] ∧ m.Carries hp o h
  /-- a call that has been answered has its outcome, if it has been sent at all -/
  answered : ∀ id ∈ enteredIn log, answersTo id log ≠ [] →
    (∃ o h, .resolved id o h ∈ log) ∨ .withdrawn id ∈ log
  /-- an entry is given up only for a call that has not been sent -/
  withdrawn : ∀ pre post id, log = pre ++ .withdrawn id :: post → .sent id ∉ pre
  /-- a call that has been sent returns its outcome, and one that could not be sent returns that the
  channel is closed -/
  returned : ∀ pre post id o, log = pre ++ .returned id o :: post →
    (.sent id ∈ pre ∧ ∃ h, .resolved id o h ∈ pre) ∨ (.sent id ∉ pre ∧ o = .error .closed)
  /-- an answer to a call that was never made, or that has its outcome, changes nothing -/
  stranger : ∀ h m, m.isAnswer = true → (m.id ∉ enteredIn log ∨ m.id ∈ removedIn log) →
    ∃ h', s.endpoint.dispatch h m = (.unknown, s.endpoint, h') ∧
      ∀ r < h.size, h'.read r = h.read r
  /-- if no two answers bear one number, the order of their arrival changes no outcome -/
  order : ∀ ms ms', (answerIds ms).Nodup → (ms.map (·.1)).Perm (ms'.map (·.1)) →
    (s.endpoint.dispatchAll ms).2 = (s.endpoint.dispatchAll ms').2 ∧
    ((s.endpoint.dispatchAll ms).1.map (·.1)).Perm ((s.endpoint.dispatchAll ms').1.map (·.1)) ∧
    ∀ id o h o' h', (id, o, h) ∈ (s.endpoint.dispatchAll ms).1 →
      (id, o', h') ∈ (s.endpoint.dispatchAll ms').1 → SameOutcome h h' o o'

/-- Against whatever peer, at every moment of every run in which no number is given twice and the
end is still open, answers and calls are matched by their numbers alone. -/
theorem Run.replies_matched {name : String} (run : Run name s log)
    (hbound : (enteredIn log).length ≤ 2 ^ 64) (hopen : s.closing = .before) : Matched s log := by
  have hsound := run.sound hbound
  have hnodup := hsound.table.numbered.nodup hbound
  obtain ⟨-, hrejected⟩ := hsound.shut.before hopen
  refine ⟨⟨hnodup, hsound.table.numbered.increasing⟩, hsound.table.once, ?_, ?_, ?_, ?_, ?_, ?_⟩
  · exact fun pre post id o h heq => hsound.told pre _ post heq
  · intro id hid hanswers
    have hout : id ∉ s.endpoint.pending :=
      fun hin => hanswers (hsound.table.unanswered id hin)
    have hremoved : id ∈ removedIn log :=
      (List.mem_append.1 (hsound.table.once.symm.subset hid)).resolve_right hout
    rcases mem_removedIn.1 hremoved with hresolved | hrejected' | hwithdrawn
    · exact .inl hresolved
    · exact absurd hrejected' (hrejected id)
    · exact .inr hwithdrawn
  · exact fun pre post id heq => hsound.told pre _ post heq
  · intro pre post id o heq
    have hreturns : Returns pre id o := hsound.told pre _ post heq
    cases hreturns with
    | given hsent hgiven =>
      cases hgiven with
      | answered hresolved => exact .inl ⟨hsent, _, hresolved⟩
      | closed hrejected' =>
        refine absurd ?_ (hrejected id)
        rw [heq]
        exact List.mem_append_left _ hrejected'
    | refused hnot => exact .inr ⟨hnot, rfl⟩
  · intro h m hm hid
    have hout : m.id ∉ s.endpoint.pending := by
      intro hin
      rcases hid with hnever | hremoved
      · exact hnever (hsound.table.entered hin)
      · have hapart := (List.nodup_append.1 (hsound.table.once.nodup_iff.2 hnodup)).2.2
        exact hapart _ hremoved _ hin rfl
    obtain ⟨o, h', hcarries, hdispatch⟩ := s.endpoint.dispatch_unknown hm hout h
    exact ⟨h', hdispatch, fun r hr => hcarries.read hr⟩
  · exact fun ms ms' hids hperm => s.endpoint.dispatchAll_perm hids hperm

/-- Two calls are answered in the reverse order, after an answer to a call that was never made. -/
theorem Run.replies_matched_reversed :
    ∃ (s : HostSide Unit) (log : List HostHeard),
      Run "host" s log ∧ (enteredIn log).length ≤ 2 ^ 64 ∧ s.closing = .before ∧
      enteredIn log = [⟨1⟩, ⟨2⟩] ∧ removedIn log = [⟨2⟩, ⟨1⟩] ∧ Matched s log := by
  obtain ⟨args, hpack⟩ := Pair.exists_packArgs_nil .empty
  let failed (id : UInt64) : Message := .fail ⟨id⟩ ⟨"Error", "none"⟩
  have hnew : Run "host" (⟨.new "host", .new, [], .before, .taking⟩ : HostSide Unit) [] := .new
  have hfirst := hnew.step (.enter (.method "first") hpack)
  have hfirstSent := hfirst.step (.own (.send (show _ = [] ++ [_] from rfl) rfl rfl))
  have hsecond := hfirstSent.step (.enter (.method "second") hpack)
  have hsecondSent := hsecond.step (.own (.send (show _ = [_] ++ [_] from rfl) rfl rfl))
  have htold := hsecondSent.peer
    (l := ⟨.new, { Queue.new with messages := [failed 9, failed 2, failed 1] }⟩) rfl
  have hstranger := htold.step (.own (.dispatch .empty rfl rfl))
  have hsecondDone := hstranger.step (.own (.dispatch .empty rfl rfl))
  have hfirstDone := hsecondDone.step (.own (.dispatch .empty rfl rfl))
  have hbound : 2 ≤ 2 ^ 64 := by norm_num
  exact ⟨_, _, hfirstDone, hbound, rfl, rfl, rfl, hfirstDone.replies_matched hbound rfl⟩

end HostSide
end WorkerHost
