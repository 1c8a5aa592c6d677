import WorkerHost.Proofs.Channel.Peer
import WorkerHost.Proofs.Wire.Placement

/-!
# The answer to an inbound call

What answers a call of the peer is decided in one order at both ends: a target that names nothing,
arguments that can not be read, the handler's own failure, a value that has no wire form, and only
then the value. `Inquiry.Decided` is this order. It does not look at the end that serves the call,
of which only the name stands in one of the texts, nor at the heaps that things are read in.

While handlers wait for calls of their own, an end has several calls to serve. `Ledger` accounts for
them: every call that was taken is under way or answered, and not both, and what has been sent are
the answers.

* `Inquiry.Decided.alike`: two ends that find the same answer alike;
* `Attended.wait`, `Attended.remove`, `Attended.finish`: a task begins to wait or is taken up, and a
  call is answered.
-/

namespace WorkerHost

/-! ## Decisions -/

/-- A call of the peer, with the heap that its arguments would be read in and what its target
names. -/
structure Inquiry (K : Type) where
  id : CallId
  target : Target
  args : Wire
  heap : Heap
  found : Option K

/-- The failure that says that a target names nothing on a side. -/
def noHandler (side : String) (target : Target) : RemoteError :=
  ⟨"NoHandler", "no " ++ side ++ " handler for " ++ target.text⟩

/-- What handlers can come to: the handler, its arguments and the heap that they live in, its result
and the heap that this lives in. -/
abbrev Outcomes (K : Type) : Type :=
  K → List Value → Heap → Except RemoteError Value → Heap → Prop

/-- A handler comes to one result. -/
def SingleValued {K : Type} (outcomes : Outcomes K) : Prop :=
  ∀ k xs h r h₁ r' h₁', outcomes k xs h r h₁ → outcomes k xs h r' h₁' → r = r' ∧ h₁ = h₁'

namespace Inquiry
variable {K : Type}

/-- The message that answers a call on a side. -/
inductive Decided (side : String) (outcomes : Outcomes K) (q : Inquiry K) : Message → Prop where
  /-- the target names nothing; nobody looks at the arguments -/
  | noHandler (hfound : q.found = none) :
      Decided side outcomes q (.fail q.id (noHandler side q.target))
  /-- the arguments can not be read; no handler runs -/
  | unreadable {k e} (hfound : q.found = some k) (hread : unpackArgs q.heap q.args = .error e) :
      Decided side outcomes q (.fail q.id ⟨"TypeError", e.message⟩)
  | failed {k xs h e h'} (hfound : q.found = some k)
      (hread : unpackArgs q.heap q.args = .ok (xs, h)) (hends : outcomes k xs h (.error e) h') :
      Decided side outcomes q (.fail q.id e)
  /-- the handler's value has no wire form -/
  | unencodable {k xs h v h' e} (hfound : q.found = some k)
      (hread : unpackArgs q.heap q.args = .ok (xs, h)) (hends : outcomes k xs h (.ok v) h')
      (hencode : Wire.encode h' v = .error e) :
      Decided side outcomes q (.fail q.id ⟨"TypeError", e.message⟩)
  | replied {k xs h v h' w} (hfound : q.found = some k)
      (hread : unpackArgs q.heap q.args = .ok (xs, h)) (hends : outcomes k xs h (.ok v) h')
      (hencode : Wire.encode h' v = .ok w) : Decided side outcomes q (.reply q.id w)

/-- A call that runs nothing: its target names nothing, or its arguments can not be read. -/
def Refused (q : Inquiry K) : Prop :=
  q.found = none ∨ ∃ e, unpackArgs q.heap q.args = .error e

/-- What serving it comes to on a side. -/
def inbound (side : String) (q : Inquiry K) : Inbound K :=
  .of side q.heap q.found q.target q.args

variable {side : String} {outcomes : Outcomes K} {q : Inquiry K} {m : Message}

lemma inbound_eq_run {k : K} {xs : List Value} {h : Heap} (hrun : q.inbound side = .run k xs h) :
    q.found = some k ∧ unpackArgs q.heap q.args = .ok (xs, h) :=
  Inbound.of_eq_run hrun

lemma Refused.exists_refused (h : q.Refused) (side : String) :
    ∃ e, q.inbound side = .refused e := by
  cases hin : q.inbound side with
  | refused e => exact ⟨e, rfl⟩
  | run k xs hp =>
    obtain ⟨hfound, hread⟩ := inbound_eq_run hin
    rcases h with hnone | ⟨e, herror⟩
    · cases hfound.symm.trans hnone
    · cases hread.symm.trans herror

/-- The failure that refuses a call is the answer to it. -/
lemma decided_of_refused {e : RemoteError} (h : q.inbound side = .refused e) :
    q.Decided side outcomes (.fail q.id e) := by
  rcases Inbound.of_eq_refused h with ⟨hfound, rfl⟩ | ⟨k, err, hfound, hread, rfl⟩
  · exact .noHandler hfound
  · exact .unreadable hfound hread

/-- So is what is made of the handler's result. -/
lemma decided_of_result {k : K} {xs : List Value} {h h' : Heap} {r : Except RemoteError Value}
    (hrun : q.inbound side = .run k xs h) (hends : outcomes k xs h r h') :
    q.Decided side outcomes (answerTo h' q.id r) := by
  obtain ⟨hfound, hread⟩ := inbound_eq_run hrun
  cases r with
  | error e => exact .failed hfound hread hends
  | ok v =>
    unfold answerTo
    dsimp only
    cases hencode : Wire.encode h' v with
    | error e => exact .unencodable hfound hread hends hencode
    | ok w => exact .replied hfound hread hends hencode

/-- The answer bears the number of the call. -/
lemma Decided.answers (h : q.Decided side outcomes m) : m.isAnswer = true ∧ m.id = q.id := by
  cases h <;> exact ⟨rfl, rfl⟩

/-- An answer is the failure that refuses the call, or it is made of a result of its handler. -/
lemma Decided.refused_or_result (h : q.Decided side outcomes m) :
    (∃ e, q.inbound side = .refused e ∧ m = .fail q.id e) ∨
      ∃ k xs hp r h₁, q.inbound side = .run k xs hp ∧ outcomes k xs hp r h₁ ∧
        m = answerTo h₁ q.id r := by
  cases h with
  | noHandler hfound => exact .inl ⟨_, by simp only [inbound, hfound, Inbound.of]; rfl, rfl⟩
  | unreadable hfound hread =>
    exact .inl ⟨_, by simp only [inbound, hfound, Inbound.of, hread], rfl⟩
  | failed hfound hread hends =>
    exact .inr ⟨_, _, _, _, _, by simp only [inbound, hfound, Inbound.of, hread], hends, rfl⟩
  | unencodable hfound hread hends hencode =>
    exact .inr ⟨_, _, _, _, _, by simp only [inbound, hfound, Inbound.of, hread], hends,
      by simp only [answerTo, hencode]⟩
  | replied hfound hread hends hencode =>
    exact .inr ⟨_, _, _, _, _, by simp only [inbound, hfound, Inbound.of, hread], hends,
      by simp only [answerTo, hencode]⟩

/-- Where handlers come to one result, a call has one answer. -/
lemma Decided.unique {m' : Message} (h : q.Decided side outcomes m)
    (h' : q.Decided side outcomes m') (hends : SingleValued outcomes) : m = m' := by
  rcases h.refused_or_result with ⟨e, he, rfl⟩ | ⟨k, xs, hp, r, h₁, hrun, hk, rfl⟩
  · rcases h'.refused_or_result with ⟨e', he', rfl⟩ | ⟨k, xs, hp, r, h₁, hrun, hk, rfl⟩
    · cases he.symm.trans he'
      rfl
    · cases he.symm.trans hrun
  · rcases h'.refused_or_result with ⟨e', he', rfl⟩ | ⟨k', xs', hp', r', h₁', hrun', hk', rfl⟩
    · cases hrun.symm.trans he'
    · cases hrun.symm.trans hrun'
      obtain ⟨rfl, rfl⟩ := hends _ _ _ _ _ _ _ hk hk'
      rfl

end Inquiry

/-! ## The same answer from either end -/

/-- Two results that nobody can tell apart. -/
inductive SameResult (h h' : Heap) :
    Except RemoteError Value → Except RemoteError Value → Prop where
  | failed (e : RemoteError) : SameResult h h' (.error e) (.error e)
  | value {v v'} (iso : Isomorphic h v h' v') : SameResult h h' (.ok v) (.ok v')

/-- Whatever a handler comes to, another comes to as well, on arguments that nobody can tell
apart. -/
def Mimics {K K' : Type} (outcomes : Outcomes K) (outcomes' : Outcomes K') (k : K) (k' : K') :
    Prop :=
  ∀ xs h r h₁ xs' h', outcomes k xs h r h₁ → JointlyIsomorphic h xs h' xs' →
    ∃ r' h₁', outcomes' k' xs' h' r' h₁' ∧ SameResult h₁ h₁' r r'

/-- Two messages that are equal but for the word for the side in the text that says that a target
names nothing. -/
inductive Message.Alike (side side' : String) : Message → Message → Prop where
  | same (m : Message) : Alike side side' m m
  | noHandler (id : CallId) (target : Target) :
      Alike side side' (.fail id (noHandler side target)) (.fail id (noHandler side' target))

section
variable {h h' : Heap}

/-- The members of two lists that nobody can tell apart, or two such values themselves. -/
lemma Isomorphic.argsOf {v v' : Value} (iso : Isomorphic h v h' v') :
    JointlyIsomorphic h (argsOf h v) h' (argsOf h' v') := by
  obtain ⟨f, iso⟩ := iso
  have hsingle : JointlyIsomorphic h [v] h' [v'] := by
    have hsame : h.objectsFromAny [v] = h.objectsFrom v := by simp [Heap.objectsFromAny]
    refine ⟨f, .of_injOn (hsame ▸ iso.bijOn.injOn) (by simp [iso.root]) fun r hr => ?_⟩
    exact iso.contents r (hsame ▸ hr)
  cases v with
  | object r =>
    have hr : r ∈ h.objectsFrom (.object r) := Heap.objectsFrom_object_self
    obtain rfl : v' = .object (f r) := iso.root
    unfold WorkerHost.argsOf
    dsimp only
    rw [iso.contents r hr]
    cases hread : h.read r with
    | list items =>
      have hsub : h.objectsFromAny items ⊆ h.objectsFrom (.object r) := by
        rintro s ⟨u, hu, hs⟩
        have hchild : u ∈ (h.read r).children := by
          rw [hread]
          exact hu
        exact (Heap.Reaches.child hr hchild).trans hs
      exact ⟨f, .of_injOn (iso.bijOn.injOn.mono hsub) rfl fun s hs => iso.contents s (hsub hs)⟩
    | map entries => exact hsingle
  | null =>
    obtain rfl : v' = .null := iso.root
    have hnone : h.objectsFromAny (WorkerHost.argsOf h .null) = ∅ := by
      simp [Heap.objectsFromAny, WorkerHost.argsOf]
    exact ⟨f, .of_injOn (by simp [hnone]) rfl (by simp [hnone])⟩
  | _ =>
    obtain rfl := iso.root
    exact hsingle

/-- Arguments that can be read are read in every heap, and nobody can tell them apart. -/
lemma exists_unpackArgs_isomorphic {w : Wire} {xs : List Value} {h₀ : Heap}
    (hread : unpackArgs h₀ w = .ok (xs, h)) (h₀' : Heap) :
    ∃ xs' h', unpackArgs h₀' w = .ok (xs', h') ∧ JointlyIsomorphic h xs h' xs' := by
  rw [unpackArgs_eq] at hread
  cases hdecode : Wire.decode h₀ w with
  | error e =>
    rw [hdecode] at hread
    cases hread
  | ok read =>
    obtain ⟨v, h₁⟩ := read
    rw [hdecode] at hread
    cases hread
    obtain ⟨v', h', hdecode', iso⟩ := Wire.decode_isomorphic hdecode h₀'
    refine ⟨argsOf h' v', h', ?_, iso.argsOf⟩
    rw [unpackArgs_eq, hdecode']
    rfl

/-- What can not be read can not be read in any heap, for one reason. -/
lemma unpackArgs_error_of_unpackArgs_error {w : Wire} {e : CodecError}
    (hread : unpackArgs h w = .error e) (h' : Heap) : unpackArgs h' w = .error e :=
  unpackArgs_eq_error_iff.2 (Wire.decode_error_of_decode_error (unpackArgs_eq_error_iff.1 hread) h')

end

/-- Two ends at which a target names the same, or at neither of them anything, answer a call
alike. -/
lemma Inquiry.Decided.alike {K K' : Type} {side : String} {outcomes : Outcomes K}
    {outcomes' : Outcomes K'} {q : Inquiry K} {m : Message} (h : q.Decided side outcomes m)
    (side' : String) (heap' : Heap) {found' : Option K'}
    (hfound : Option.Rel (Mimics outcomes outcomes') q.found found') :
    ∃ m', Decided side' outcomes' ⟨q.id, q.target, q.args, heap', found'⟩ m' ∧
      Message.Alike side side' m m' := by
  let q' : Inquiry K' := ⟨q.id, q.target, q.args, heap', found'⟩
  have hsome {k : K} (hk : q.found = some k) : ∃ k', q'.found = some k' ∧
      Mimics outcomes outcomes' k k' := by
    rw [hk] at hfound
    cases hfound with
    | some hsame => exact ⟨_, rfl, hsame⟩
  -- the handlers run on arguments that nobody can tell apart, so their results are the same
  have hsame {k : K} {xs : List Value} {hp : Heap} {r : Except RemoteError Value} {h₁ : Heap}
      (hk : q.found = some k) (hread : unpackArgs q.heap q.args = .ok (xs, hp))
      (hends : outcomes k xs hp r h₁) : ∃ k' xs' hp' r' h₁', q'.found = some k' ∧
        unpackArgs q'.heap q'.args = .ok (xs', hp') ∧ outcomes' k' xs' hp' r' h₁' ∧
        SameResult h₁ h₁' r r' := by
    obtain ⟨k', hk', hmimics⟩ := hsome hk
    obtain ⟨xs', hp', hread', iso⟩ := exists_unpackArgs_isomorphic hread heap'
    obtain ⟨r', h₁', hends', hresult⟩ := hmimics xs hp r h₁ xs' hp' hends iso
    exact ⟨k', xs', hp', r', h₁', hk', hread', hends', hresult⟩
  cases h with
  | noHandler hnone =>
    rw [hnone] at hfound
    cases hfound
    exact ⟨_, .noHandler rfl, .noHandler q.id q.target⟩
  | unreadable hk hread =>
    obtain ⟨k', hk', -⟩ := hsome hk
    exact ⟨_, .unreadable hk' (unpackArgs_error_of_unpackArgs_error hread heap'), .same _⟩
  | failed hk hread hends =>
    obtain ⟨k', xs', hp', r', h₁', hk', hread', hends', hresult⟩ := hsame hk hread hends
    cases hresult with
    | failed e => exact ⟨_, .failed hk' hread' hends', .same _⟩
  | unencodable hk hread hends hencode =>
    obtain ⟨k', xs', hp', r', h₁', hk', hread', hends', hresult⟩ := hsame hk hread hends
    cases hresult with
    | value iso =>
      exact ⟨_, .unencodable hk' hread' hends' (iso.encode_eq.trans hencode), .same _⟩
  | replied hk hread hends hencode =>
    obtain ⟨k', xs', hp', r', h₁', hk', hread', hends', hresult⟩ := hsame hk hread hends
    cases hresult with
    | value iso => exact ⟨_, .replied hk' hread' hends' (iso.encode_eq.trans hencode), .same _⟩

/-! ## Handlers -/

section
variable {σ Q K : Type} {R : Q → Type} [HasHeap σ]

/-- What handlers can come to, whatever answers their own questions get. -/
def outcomesOf (programs : K → List Value → Task σ Q R (Except RemoteError Value)) : Outcomes K :=
  fun k xs h r h' => ∃ s s', (programs k xs (HasHeap.setHeap h s)).Leads (.done r s') ∧
    HasHeap.heap s' = h'

/-- A computation that was started for a call, or what it has gone on to. -/
def Inquiry.Goes (programs : K → List Value → Task σ Q R (Except RemoteError Value)) (side : String)
    (q : Inquiry K) (step : Step σ Q R (Except RemoteError Value)) : Prop :=
  ∃ k xs h s, q.inbound side = .run k xs h ∧
    (programs k xs (HasHeap.setHeap h s)).Leads step

/-- What a computation ends with is made into the answer. -/
lemma Inquiry.Goes.decided
    {programs : K → List Value → Task σ Q R (Except RemoteError Value)} {side : String}
    {q : Inquiry K} {r : Except RemoteError Value} {s : σ} (h : q.Goes programs side (.done r s)) :
    q.Decided side (outcomesOf programs) (answerTo (HasHeap.heap s) q.id r) := by
  obtain ⟨k, xs, hp, s₀, hrun, hleads⟩ := h
  exact decided_of_result hrun ⟨s₀, s, hleads, rfl⟩

end

/-! ## Calls that are under way -/

/-- What has become of the calls that an end has taken, by the tasks that wait at it and the
messages that it has sent. -/
structure Ledger {K T : Type} (Waits : Inquiry K → T → Prop) (Right : Inquiry K → Message → Prop)
    (taken : List (Inquiry K)) (tasks : List T) (joined : Prop) (sent : List Message)
    (underWay : List (Inquiry K)) (answered : List (Inquiry K × Message)) : Prop where
  /-- every call is under way or answered, and it is one of the two once -/
  once : taken.Perm (underWay ++ answered.map (·.1))
  /-- for every call under way there is a task that waits -/
  waiting : List.Forall₂ Waits underWay tasks
  right : ∀ a ∈ answered, Right a.1 a.2
  /-- nothing else has been sent as an answer, and nothing twice -/
  only : (sent.filter (·.isAnswer)).Sublist (answered.map (·.2))
  /-- no answer is missing as long as messages are taken -/
  all : joined → sent.filter (·.isAnswer) = answered.map (·.2)

/-- All calls that an end has taken are accounted for. -/
def Attended {K T : Type} (Waits : Inquiry K → T → Prop) (Right : Inquiry K → Message → Prop)
    (taken : List (Inquiry K)) (tasks : List T) (joined : Prop) (sent : List Message) : Prop :=
  ∃ underWay answered, Ledger Waits Right taken tasks joined sent underWay answered

namespace Attended
variable {K T : Type} {Waits : Inquiry K → T → Prop} {Right : Inquiry K → Message → Prop}
  {taken taken' : List (Inquiry K)} {tasks before after : List T} {joined joined' : Prop}
  {sent more : List Message} {q : Inquiry K} {t : T} {m : Message}

lemma start : Attended Waits Right [] [] joined [] :=
  ⟨[], [], .nil, .nil, by simp, List.Sublist.slnil, fun _ => rfl⟩

lemma perm (h : Attended Waits Right taken tasks joined sent) (hperm : taken'.Perm taken) :
    Attended Waits Right taken' tasks joined sent := by
  obtain ⟨underWay, answered, hl⟩ := h
  exact ⟨underWay, answered, hperm.trans hl.once, hl.waiting, hl.right, hl.only, hl.all⟩

/-- Messages may be taken no more. -/
lemma congr (h : Attended Waits Right taken tasks joined sent) (hjoined : joined' → joined) :
    Attended Waits Right taken tasks joined' sent := by
  obtain ⟨underWay, answered, hl⟩ := h
  exact ⟨underWay, answered, hl.once, hl.waiting, hl.right, hl.only, fun hj => hl.all (hjoined hj)⟩

/-- Calls that are sent are no answers. -/
lemma calls (h : Attended Waits Right taken tasks joined sent)
    (hmore : ∀ m ∈ more, m.isAnswer = false) :
    Attended Waits Right taken tasks joined (sent ++ more) := by
  have hnone : (sent ++ more).filter (·.isAnswer) = sent.filter (·.isAnswer) := by
    have hquiet : more.filter (·.isAnswer) = [] := by
      rw [List.filter_eq_nil_iff]
      exact fun m hm => by simp [hmore m hm]
    rw [List.filter_append, hquiet, List.append_nil]
  obtain ⟨underWay, answered, hl⟩ := h
  exact ⟨underWay, answered, hl.once, hl.waiting, hl.right, hnone ▸ hl.only,
    fun hj => hnone ▸ hl.all hj⟩

/-- A call is answered, and the answer is sent or it is lost. -/
lemma finish (h : Attended Waits Right taken tasks joined sent) (hright : Right q m)
    (hm : m.isAnswer = true) (hmore : more = [m] ∨ ¬ joined ∧ more = []) :
    Attended Waits Right (q :: taken) tasks joined (sent ++ more) := by
  obtain ⟨underWay, answered, hl⟩ := h
  have hanswers : (answered ++ [(q, m)]).map (·.2) = answered.map (·.2) ++ [m] := by simp
  refine ⟨underWay, answered ++ [(q, m)], ?_, hl.waiting, ?_, ?_, ?_⟩
  · rw [List.map_append, ← List.append_assoc]
    exact (hl.once.cons q).trans (List.perm_append_singleton q _).symm
  · intro a ha
    rcases List.mem_append.1 ha with hold | hnew
    · exact hl.right a hold
    · rw [List.mem_singleton.1 hnew]
      exact hright
  · rw [hanswers, List.filter_append]
    refine hl.only.append ?_
    rcases hmore with rfl | ⟨-, rfl⟩
    · rw [List.filter_singleton, hm]
      exact .refl _
    · exact List.nil_sublist _
  · intro hj
    rcases hmore with rfl | ⟨hnot, -⟩
    · rw [hanswers, List.filter_append, hl.all hj, List.filter_singleton, hm]
      rfl
    · exact absurd hj hnot

/-- A task begins to wait. -/
lemma wait (h : Attended Waits Right taken (before ++ after) joined sent) (hwaits : Waits q t) :
    Attended Waits Right (q :: taken) (before ++ t :: after) joined sent := by
  obtain ⟨underWay, answered, hl⟩ := h
  refine ⟨underWay.take before.length ++ q :: underWay.drop before.length, answered, ?_, ?_,
    hl.right, hl.only, hl.all⟩
  · rw [List.append_assoc, List.cons_append]
    refine (hl.once.cons q).trans ?_
    conv_lhs => rw [← List.take_append_drop before.length underWay]
    rw [List.append_assoc]
    exact List.perm_middle.symm
  · exact List.rel_append (List.forall₂_take_append _ _ _ hl.waiting)
      (.cons hwaits (List.forall₂_drop_append _ _ _ hl.waiting))

/-- A task that waits is taken up. -/
lemma remove (h : Attended Waits Right taken (before ++ t :: after) joined sent) :
    ∃ q taken', Waits q t ∧ taken.Perm (q :: taken') ∧
      Attended Waits Right taken' (before ++ after) joined sent := by
  obtain ⟨underWay, answered, hl⟩ := h
  have hfirst := List.forall₂_take_append _ _ _ hl.waiting
  have hlast := List.forall₂_drop_append _ _ _ hl.waiting
  generalize hfront : underWay.take before.length = front at hfirst
  generalize hback : underWay.drop before.length = back at hlast
  obtain rfl : underWay = front ++ back := by
    rw [← hfront, ← hback, List.take_append_drop]
  cases hlast with
  | @cons q _ rest _ hwaits hrest =>
    refine ⟨q, (front ++ rest) ++ answered.map (·.1), hwaits, ?_, front ++ rest, answered, .rfl,
      List.rel_append hfirst hrest, hl.right, hl.only, hl.all⟩
    refine hl.once.trans ?_
    rw [List.append_assoc, List.append_assoc]
    exact List.perm_middle

end Attended

end WorkerHost
