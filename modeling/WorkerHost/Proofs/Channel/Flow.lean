import Mathlib.Data.Multiset.Filter
import Mathlib.Data.Set.Insert
import WorkerHost.Channel.Link
import WorkerHost.Proofs.Channel.Arguments
import WorkerHost.Proofs.Counter

/-!
# The calls of one side of a channel

A `Flow` is all that the calls of one side have come to: the next number, the calls that are waited
for, a token for every call on its way with where it is, and the events of all calls so far. A call
moves on by `Advance`, and `Story` says which events lead to a token. Neither says anything about
queues, stacks or tasks, so both directions of a channel are flows of one kind.

* `Story.eq_of_aside`: all that has happened to a call whose answer is there;
* `Flow.Valid`: every call has one token and the story that fits it, or it is over, or it was never
  made;
* `Flow.Valid.issue`, `Flow.Valid.advance`, `Flow.Valid.complete`: whatever moves, this stays so, as
  long as no number is given twice.
-/

namespace WorkerHost

/-- What happens to a call. `K` is what can be called on the side that serves it. -/
inductive CallEvent (K : Type) where
  /-- the caller sends it, with arguments that live in a heap -/
  | issued (target : Target) (args : List Value) (heap : Heap)
  /-- the peer takes it off its queue, decodes in a heap, and finds what the target names -/
  | served (target : Target) (args : Wire) (heap : Heap) (found : Option K)
  /-- the peer runs what it found on arguments that live in a heap -/
  | ran (callable : K) (args : List Value) (heap : Heap)
  /-- the peer sends a result that lives in a heap -/
  | answered (result : Except RemoteError Value) (heap : Heap)
  /-- the caller takes the answer off its queue and decodes it in a heap -/
  | received (heap : Heap) (outcome : CallOutcome)
  /-- the call returns -/
  | completed (outcome : CallOutcome)

namespace CallEvent
variable {K : Type}

def isIssued : CallEvent K → Bool
  | issued .. => true
  | _ => false

def isServed : CallEvent K → Bool
  | served .. => true
  | _ => false

def isRan : CallEvent K → Bool
  | ran .. => true
  | _ => false

def isCompleted : CallEvent K → Bool
  | completed _ => true
  | _ => false

end CallEvent

/-- The places where a call can be. -/
inductive CallPlace where
  /-- as a message to the peer, which is sent or about to be -/
  | calling
  /-- with the peer -/
  | handled
  /-- as a message back -/
  | answering
  /-- with the caller, which has not come to it yet -/
  | aside
  /-- back with the caller -/
  | completed
  deriving DecidableEq

/-- A call that is on its way, and what there is of it. -/
inductive Token where
  | calling (target : Target) (args : Wire)
  /-- the peer has it, and has not looked for what the target names -/
  | taken (target : Target) (args : Wire)
  /-- the peer runs what the target names -/
  | handled
  /-- the peer has refused it, and has still to say so -/
  | refused (e : RemoteError)
  | answering (m : Message)
  | aside (outcome : CallOutcome)

def Token.place : Token → CallPlace
  | calling .. => .calling
  | taken .. => .handled
  | handled => .handled
  | refused _ => .handled
  | answering _ => .answering
  | aside _ => .aside

/-! ## Stories -/

section
variable {K : Type} {side : String} {id : CallId}

/-- How a call goes on, and what happens to it meanwhile. `side` is the name of the peer. -/
inductive Advance (side : String) (id : CallId) : Token → List (CallEvent K) → Token → Prop where
  | take {target args} : Advance side id (.calling target args) [] (.taken target args)
  | serve {target args h found k xs h'}
      (hrun : Inbound.of side h found target args = .run k xs h') :
      Advance side id (.taken target args) [.served target args h found, .ran k xs h'] .handled
  | refuse {target args h found e}
      (hrefused : Inbound.of side h found target args = .refused e) :
      Advance side id (.taken target args) [.served target args h found] (.refused e)
  | fail {e h} : Advance side id (.refused e) [.answered (.error e) h] (.answering (.fail id e))
  | answer {r h} : Advance side id .handled [.answered r h] (.answering (answerTo h id r))
  | receive {m h o h'} (hread : m.outcome? h = some (o, h')) :
      Advance side id (.answering m) [.received h o] (.aside o)

/-- The events that have led to a token. -/
inductive Story (side : String) (id : CallId) : Token → List (CallEvent K) → Prop where
  | issue {target xs h args} (hpack : packArgs h xs = .ok args) :
      Story side id (.calling target args) [.issued target xs h]
  | advance {t t' past evs} (before : Story side id t past) (step : Advance side id t evs t') :
      Story side id t' (past ++ evs)

/-- Going on is no new call. -/
lemma Advance.not_issued {t t' : Token} {evs : List (CallEvent K)}
    (step : Advance side id t evs t') : ∀ e ∈ evs, e.isIssued = false := by
  cases step <;> simp [CallEvent.isIssued]

/-- A call has been made before anything else. -/
lemma Story.issued_mem {t : Token} {past : List (CallEvent K)} (story : Story side id t past) :
    ∃ e ∈ past, e.isIssued = true := by
  induction story with
  | issue hpack => exact ⟨_, List.mem_singleton_self _, rfl⟩
  | advance _ _ ih =>
    obtain ⟨e, he, hissued⟩ := ih
    exact ⟨e, List.mem_append_left _ he, hissued⟩

lemma Story.eq_of_calling {target : Target} {args : Wire} {past : List (CallEvent K)}
    (story : Story side id (.calling target args) past) :
    ∃ xs h, packArgs h xs = .ok args ∧ past = [.issued target xs h] := by
  cases story with
  | issue hpack => exact ⟨_, _, hpack, rfl⟩
  | advance _ step => cases step

/-- Taking a call off the queue is no event of the call. -/
lemma Story.eq_of_taken {target : Target} {args : Wire} {past : List (CallEvent K)}
    (story : Story side id (.taken target args) past) :
    ∃ xs h, packArgs h xs = .ok args ∧ past = [.issued target xs h] := by
  cases story with
  | advance before step =>
    cases step with
    | take =>
      rw [List.append_nil]
      exact before.eq_of_calling

lemma Story.eq_of_handled {past : List (CallEvent K)} (story : Story side id .handled past) :
    ∃ target xs h args h₁ found k ys h', packArgs h xs = .ok args ∧
      Inbound.of side h₁ found target args = .run k ys h' ∧
      past = [.issued target xs h, .served target args h₁ found, .ran k ys h'] := by
  cases story with
  | advance before step =>
    cases step with
    | serve hrun =>
      obtain ⟨xs, h, hpack, rfl⟩ := before.eq_of_taken
      exact ⟨_, xs, h, _, _, _, _, _, _, hpack, hrun, rfl⟩

lemma Story.eq_of_refused {e : RemoteError} {past : List (CallEvent K)}
    (story : Story side id (.refused e) past) :
    ∃ target xs h args h₁ found, packArgs h xs = .ok args ∧
      Inbound.of side h₁ found target args = .refused e ∧
      past = [.issued target xs h, .served target args h₁ found] := by
  cases story with
  | advance before step =>
    cases step with
    | refuse hrefused =>
      obtain ⟨xs, h, hpack, rfl⟩ := before.eq_of_taken
      exact ⟨_, xs, h, _, _, _, hpack, hrefused, rfl⟩

/-- Arguments that were packed can be unpacked. -/
lemma exists_unpackArgs {h : Heap} {xs : List Value} {args : Wire}
    (hpack : packArgs h xs = .ok args) (h₁ : Heap) :
    ∃ ys h', unpackArgs h₁ args = .ok (ys, h') := by
  obtain ⟨v, h', hdecode⟩ := Wire.exists_decode_of_encode hpack h₁
  rw [unpackArgs_eq, hdecode]
  exact ⟨_, _, rfl⟩

/-- What the peer runs for a call until it has a result: nothing if the target names nothing, else
what it names, once, on the arguments as they come out of their wire form. -/
inductive Served (side : String) (target : Target) (args : Wire) (h : Heap) :
    Option K → List (CallEvent K) → Except RemoteError Value → Prop where
  | unknown : Served side target args h none []
      (.error ⟨"NoHandler", "no " ++ side ++ " handler for " ++ target.text⟩)
  | ran {k ys h' r} (hunpack : unpackArgs h args = .ok (ys, h')) :
      Served side target args h (some k) [.ran k ys h'] r

/-- An outcome is what the wire makes of a result. -/
inductive Transported (h h' : Heap) : Except RemoteError Value → CallOutcome → Prop where
  | failed (e : RemoteError) : Transported h h' (.error e) (.error (.remote e))
  | delivered {v w v' h''} (hencode : Wire.encode h v = .ok w)
      (hdecode : Wire.decode h' w = .ok (v', h'')) : Transported h h' (.ok v) (.ok v')
  | unencodable {v e} (hencode : Wire.encode h v = .error e) :
      Transported h h' (.ok v) (.error (.remote ⟨"TypeError", e.message⟩))

section
variable {target : Target} {h₁ h' : Heap} {args : Wire} {found : Option K} {k : K} {ys : List Value}
  {e : RemoteError}

/-- What is run is what the target names, on the arguments as they are read. -/
lemma Inbound.of_eq_run (hrun : Inbound.of side h₁ found target args = .run k ys h') :
    found = some k ∧ unpackArgs h₁ args = .ok (ys, h') := by
  unfold Inbound.of at hrun
  cases found with
  | none => cases hrun
  | some k =>
    cases hunpack : unpackArgs h₁ args with
    | error e =>
      simp only [hunpack] at hrun
      cases hrun
    | ok unpacked =>
      simp only [hunpack] at hrun
      cases hrun
      exact ⟨rfl, rfl⟩

/-- A call is refused because its target names nothing, or its arguments can not be read. -/
lemma Inbound.of_eq_refused (hrefused : Inbound.of side h₁ found target args = .refused e) :
    found = none ∧ e = ⟨"NoHandler", "no " ++ side ++ " handler for " ++ target.text⟩ ∨
      ∃ k err, found = some k ∧ unpackArgs h₁ args = .error err ∧
        e = ⟨"TypeError", err.message⟩ := by
  unfold Inbound.of at hrefused
  cases found with
  | none =>
    cases hrefused
    exact .inl ⟨rfl, rfl⟩
  | some k =>
    cases hunpack : unpackArgs h₁ args with
    | error err =>
      simp only [hunpack] at hrefused
      cases hrefused
      exact .inr ⟨k, err, rfl, rfl, rfl⟩
    | ok unpacked =>
      simp only [hunpack] at hrefused
      cases hrefused

lemma served_of_refused {xs : List Value} {h : Heap} (hpack : packArgs h xs = .ok args)
    (hrefused : Inbound.of side h₁ found target args = .refused e) :
    Served side target args h₁ found [] (.error e) := by
  rcases Inbound.of_eq_refused hrefused with ⟨rfl, rfl⟩ | ⟨k, err, -, herror, -⟩
  · exact .unknown
  · -- arguments that were packed are never refused
    obtain ⟨ys, h', hunpack⟩ := exists_unpackArgs hpack h₁
    cases hunpack.symm.trans herror

lemma served_of_run (hrun : Inbound.of side h₁ found target args = .run k ys h')
    (r : Except RemoteError Value) : Served side target args h₁ found [.ran k ys h'] r := by
  obtain ⟨rfl, hunpack⟩ := Inbound.of_eq_run hrun
  exact .ran hunpack

end

/-- What the caller makes of an answer. -/
lemma transported_of_answerTo {h h' h'' : Heap} {r : Except RemoteError Value} {o : CallOutcome}
    (hread : (answerTo h id r).outcome? h' = some (o, h'')) : Transported h h' r o := by
  unfold answerTo at hread
  cases r with
  | error e =>
    cases hread
    exact .failed e
  | ok v =>
    cases hencode : Wire.encode h v with
    | error e =>
      simp only [hencode] at hread
      cases hread
      exact .unencodable hencode
    | ok w =>
      -- what was encoded is decoded, so the caller never sees a decoding error
      obtain ⟨v', h₁, hdecode⟩ := Wire.exists_decode_of_encode hencode h'
      simp only [hencode, Message.outcome?, hdecode] at hread
      cases hread
      exact .delivered hencode hdecode

lemma Story.eq_of_answering {m : Message} {past : List (CallEvent K)}
    (story : Story side id (.answering m) past) :
    ∃ target xs h args h₁ found runs r h₂, packArgs h xs = .ok args ∧
      Served side target args h₁ found runs r ∧ m = answerTo h₂ id r ∧
      past = [.issued target xs h, .served target args h₁ found] ++ runs ++ [.answered r h₂] := by
  cases story with
  | advance before step =>
    cases step with
    | fail =>
      obtain ⟨target, xs, h, args, h₁, found, hpack, hrefused, rfl⟩ := before.eq_of_refused
      exact ⟨target, xs, h, args, h₁, found, [], _, _, hpack, served_of_refused hpack hrefused, rfl,
        rfl⟩
    | answer =>
      obtain ⟨target, xs, h, args, h₁, found, k, ys, h', hpack, hrun, rfl⟩ := before.eq_of_handled
      exact ⟨target, xs, h, args, h₁, found, [.ran k ys h'], _, _, hpack, served_of_run hrun _, rfl,
        rfl⟩

/-- All that has happened to a call whose answer is with the caller. -/
lemma Story.eq_of_aside {o : CallOutcome} {past : List (CallEvent K)}
    (story : Story side id (.aside o) past) :
    ∃ target xs h args h₁ found runs r h₂ h₃, packArgs h xs = .ok args ∧
      Served side target args h₁ found runs r ∧ Transported h₂ h₃ r o ∧
      past = [.issued target xs h, .served target args h₁ found] ++ runs ++
        [.answered r h₂, .received h₃ o] := by
  cases story with
  | advance before step =>
    cases step with
    | receive hread =>
      obtain ⟨target, xs, h, args, h₁, found, runs, r, h₂, hpack, hruns, rfl, rfl⟩ :=
        before.eq_of_answering
      exact ⟨target, xs, h, args, h₁, found, runs, r, h₂, _, hpack, hruns,
        transported_of_answerTo hread, by simp⟩

end

/-! ## Tokens and histories of one call -/

/-- The tokens of a call. -/
def tokens (live : Multiset (CallId × Token)) (id : CallId) : Multiset Token :=
  (live.filter (·.1 = id)).map (·.2)

section
variable {live : Multiset (CallId × Token)} {id a : CallId} {t : Token}

@[simp] lemma tokens_cons_self : tokens ((id, t) ::ₘ live) id = t ::ₘ tokens live id := by
  simp [tokens]

lemma tokens_cons_of_ne (hne : a ≠ id) : tokens ((a, t) ::ₘ live) id = tokens live id := by
  simp [tokens, hne]

lemma mem_tokens : t ∈ tokens live id ↔ (id, t) ∈ live := by
  simp [tokens]

lemma tokens_eq_zero : tokens live id = 0 ↔ ∀ t, (id, t) ∉ live := by
  rw [Multiset.eq_zero_iff_forall_notMem]
  exact forall_congr' fun t => not_congr mem_tokens

end

section
variable {K : Type} {log more : List (CallId × CallEvent K)} {id a : CallId}

/-- The events of a call. -/
def history (log : List (CallId × CallEvent K)) (id : CallId) : List (CallEvent K) :=
  (log.filter (·.1 = id)).map (·.2)

@[simp] lemma history_append : history (log ++ more) id = history log id ++ history more id := by
  simp [history]

@[simp] lemma history_self (evs : List (CallEvent K)) : history (evs.map (id, ·)) id = evs := by
  simp [history, List.filter_map, Function.comp_def]

lemma history_of_ne (evs : List (CallEvent K)) (hne : a ≠ id) :
    history (evs.map (a, ·)) id = [] := by
  simp [history, List.filter_map, Function.comp_def, hne]

lemma mem_history {e : CallEvent K} : e ∈ history log id ↔ (id, e) ∈ log := by
  simp [history]

/-- The calls that have been made, in their order. -/
def issuedIds (log : List (CallId × CallEvent K)) : List CallId :=
  (log.filter (·.2.isIssued)).map (·.1)

@[simp] lemma issuedIds_append : issuedIds (log ++ more) = issuedIds log ++ issuedIds more := by
  simp [issuedIds]

lemma mem_issuedIds : id ∈ issuedIds log ↔ ∃ e ∈ history log id, e.isIssued = true := by
  simp [issuedIds, mem_history]

/-- Events other than sending make no call. -/
lemma issuedIds_of_not_issued {evs : List (CallEvent K)} (h : ∀ e ∈ evs, e.isIssued = false) :
    issuedIds (evs.map (id, ·)) = [] := by
  simp only [issuedIds, List.filter_map, Function.comp_def, List.map_map, List.map_eq_nil_iff]
  exact List.filter_eq_nil_iff.2 fun e he => by simp [h e he]

end

/-- The number of the call that follows so many others. -/
def callNumber (k : ℕ) : CallId :=
  ⟨counterAt k⟩

/-- The first `2 ^ 64` numbers differ. -/
lemma callNumber_inj {k l : ℕ} (hk : k < 2 ^ 64) (hl : l < 2 ^ 64)
    (heq : callNumber k = callNumber l) : k = l :=
  counterAt_inj hk hl (congrArg CallId.id heq)

lemma callNumber_succ {n : UInt64} {k : ℕ} (h : (⟨n⟩ : CallId) = callNumber k) :
    (⟨n + 1⟩ : CallId) = callNumber (k + 1) := by
  have hn : n = counterAt k := congrArg CallId.id h
  rw [hn, callNumber, counterAt_succ]

/-! ## Flows -/

/-- The calls of one side. -/
structure Flow (K : Type) where
  next : UInt64
  waiting : Set CallId
  live : Multiset (CallId × Token)
  log : List (CallId × CallEvent K)

namespace Flow
variable {K : Type} {side : String} {f g : Flow K} {id : CallId}

/-- What a flow knows of a call: nothing, a token with its story, or a story that is over. -/
inductive Placed (side : String) (f : Flow K) (id : CallId) : Prop where
  | unissued (htokens : tokens f.live id = 0) (hpast : history f.log id = [])
  | live (t : Token) (htokens : tokens f.live id = {t})
      (story : Story side id t (history f.log id))
  | completed (o : CallOutcome) (past : List (CallEvent K)) (htokens : tokens f.live id = 0)
      (story : Story side id (.aside o) past) (hpast : history f.log id = past ++ [.completed o])

/-- What holds of a flow at all times. -/
structure Valid (side : String) (f : Flow K) : Prop where
  numbered : issuedIds f.log = (List.range (issuedIds f.log).length).map callNumber
  next : (⟨f.next⟩ : CallId) = callNumber (issuedIds f.log).length
  placed : ∀ id, Placed side f id
  waiting : ∀ id, id ∈ f.waiting ↔ ∃ t, (id, t) ∈ f.live

/-- Before the first call. -/
lemma valid_new {waiting : Set CallId} (hnone : ∀ id, id ∉ waiting) :
    Valid side (⟨1, waiting, 0, []⟩ : Flow K) := by
  refine ⟨rfl, rfl, fun id => .unissued rfl rfl, fun id => ?_⟩
  constructor
  · intro h
    exact absurd h (hnone id)
  · intro hx
    obtain ⟨t, ht⟩ := hx
    exact absurd ht (Multiset.notMem_zero _)

/-- A call that was never made is not known. -/
lemma Valid.unissued (hf : f.Valid side) (hid : id ∉ issuedIds f.log) :
    tokens f.live id = 0 ∧ history f.log id = [] := by
  have hnone : ¬ ∃ e ∈ history f.log id, e.isIssued = true := fun h => hid (mem_issuedIds.2 h)
  cases hf.placed id with
  | unissued htokens hpast => exact ⟨htokens, hpast⟩
  | live t htokens story => exact absurd story.issued_mem hnone
  | completed o past htokens story hpast =>
    obtain ⟨e, he, hissued⟩ := story.issued_mem
    exact absurd ⟨e, hpast ▸ List.mem_append_left _ he, hissued⟩ hnone

/-- As long as the numbers suffice, the next one is new. -/
lemma Valid.next_not_issued (hf : f.Valid side) (hbound : (issuedIds f.log).length < 2 ^ 64) :
    (⟨f.next⟩ : CallId) ∉ issuedIds f.log := by
  intro hmem
  rw [hf.numbered, hf.next] at hmem
  obtain ⟨k, hk, heq⟩ := List.mem_map.1 hmem
  have hlt := List.mem_range.1 hk
  exact Nat.ne_of_lt hlt (callNumber_inj (by omega) hbound heq)

/-- A token that is there is the only one of its call, and its story fits it. -/
lemma Valid.of_cons {t : Token} {rest : Multiset (CallId × Token)} (hf : f.Valid side)
    (hlive : f.live = (id, t) ::ₘ rest) :
    tokens rest id = 0 ∧ Story side id t (history f.log id) := by
  have htokens : tokens f.live id = t ::ₘ tokens rest id := by rw [hlive, tokens_cons_self]
  cases hf.placed id with
  | unissued hzero _ => exact absurd (htokens ▸ hzero) (Multiset.cons_ne_zero)
  | live t' hone story =>
    rw [htokens] at hone
    -- a call has one token, so the rest of the flow has none of it
    obtain ⟨rfl, hzero⟩ := Multiset.cons_eq_cons.1 hone |>.resolve_right fun h => by
      obtain ⟨_, cs, _, hcs⟩ := h
      exact Multiset.cons_ne_zero hcs.symm
    exact ⟨hzero, story⟩
  | completed _ _ hzero _ _ => exact absurd (htokens ▸ hzero) (Multiset.cons_ne_zero)

/-- A call of which neither tokens nor events change stays where it is. -/
lemma Placed.congr (hp : Placed side f id) (htokens : tokens g.live id = tokens f.live id)
    (hpast : history g.log id = history f.log id) : Placed side g id := by
  cases hp with
  | unissued h₁ h₂ => exact .unissued (htokens.trans h₁) (hpast.trans h₂)
  | live t h₁ story => exact .live t (htokens.trans h₁) (hpast ▸ story)
  | completed o past h₁ story h₂ =>
    exact .completed o past (htokens.trans h₁) story (hpast.trans h₂)

lemma Valid.issue (hf : f.Valid side) (target : Target) {xs : List Value} {h : Heap} {args : Wire}
    (hpack : packArgs h xs = .ok args) (hbound : (issuedIds f.log).length < 2 ^ 64) :
    Valid side
      { next := f.next + 1
        waiting := insert ⟨f.next⟩ f.waiting
        live := (⟨f.next⟩, .calling target args) ::ₘ f.live
        log := f.log ++ [(⟨f.next⟩, .issued target xs h)] } := by
  -- the next number is new: there is neither a token nor a past to mix it up with
  obtain ⟨hzero, hpast⟩ := hf.unissued (hf.next_not_issued hbound)
  have hids : issuedIds (f.log ++ [((⟨f.next⟩ : CallId), CallEvent.issued target xs h)]) =
      issuedIds f.log ++ [⟨f.next⟩] := by
    rw [issuedIds_append]
    rfl
  constructor
  · simp only [hids, List.length_append, List.length_singleton, List.range_succ, List.map_append,
      List.map_singleton]
    rw [← hf.numbered, hf.next]
  · simp only [hids, List.length_append, List.length_singleton]
    exact callNumber_succ hf.next
  · intro id
    have hlog : history (f.log ++ [((⟨f.next⟩ : CallId), CallEvent.issued target xs h)]) id =
        history f.log id ++ history ([CallEvent.issued target xs h].map (⟨f.next⟩, ·)) id :=
      history_append
    by_cases hid : (⟨f.next⟩ : CallId) = id
    · subst hid
      refine .live (.calling target args) ?_ ?_
      · rw [tokens_cons_self, hzero]
        rfl
      · rw [hlog, hpast, history_self, List.nil_append]
        exact .issue hpack
    · refine (hf.placed id).congr (tokens_cons_of_ne hid) ?_
      rw [hlog, history_of_ne _ hid, List.append_nil]
  · intro id
    simp only [Set.mem_insert_iff, Multiset.mem_cons, Prod.mk.injEq, exists_or, exists_and_left,
      exists_eq, and_true]
    exact or_congr Iff.rfl (hf.waiting id)

lemma Valid.advance (hf : f.Valid side) {t t' : Token} {rest : Multiset (CallId × Token)}
    {evs : List (CallEvent K)} (hlive : f.live = (id, t) ::ₘ rest)
    (step : Advance side id t evs t') :
    Valid side { f with live := (id, t') ::ₘ rest, log := f.log ++ evs.map (id, ·) } := by
  obtain ⟨hzero, story⟩ := hf.of_cons hlive
  have hids : issuedIds (f.log ++ evs.map (id, ·)) = issuedIds f.log := by
    rw [issuedIds_append, issuedIds_of_not_issued step.not_issued, List.append_nil]
  -- only the call that moves on has another place, and its story grows by the events
  refine ⟨by rw [hids]; exact hf.numbered, by rw [hids]; exact hf.next, ?_, ?_⟩
  · intro a
    by_cases ha : id = a
    · subst ha
      refine .live t' ?_ ?_
      · rw [tokens_cons_self, hzero]
        rfl
      · rw [history_append, history_self]
        exact story.advance step
    · refine (hf.placed a).congr ?_ ?_
      · rw [hlive, tokens_cons_of_ne ha, tokens_cons_of_ne ha]
      · rw [history_append, history_of_ne _ ha, List.append_nil]
  · intro a
    rw [hf.waiting a, hlive]
    simp only [Multiset.mem_cons, Prod.mk.injEq, exists_or, exists_and_left, exists_eq, and_true]

lemma Valid.complete (hf : f.Valid side) {o : CallOutcome} {rest : Multiset (CallId × Token)}
    (hlive : f.live = (id, .aside o) ::ₘ rest) :
    Valid side
      { f with
        waiting := f.waiting \ {id}
        live := rest
        log := f.log ++ [(id, .completed o)] } := by
  obtain ⟨hzero, story⟩ := hf.of_cons hlive
  have hlog (a : CallId) : history (f.log ++ [(id, CallEvent.completed o)]) a =
      history f.log a ++ history ([CallEvent.completed o].map (id, ·)) a :=
    history_append
  have hids : issuedIds (f.log ++ [(id, CallEvent.completed o)]) = issuedIds f.log := by
    rw [issuedIds_append]
    exact List.append_nil _
  refine ⟨by rw [hids]; exact hf.numbered, by rw [hids]; exact hf.next, ?_, ?_⟩
  · intro a
    by_cases ha : id = a
    · subst ha
      refine .completed o _ hzero story ?_
      rw [hlog, history_self]
    · refine (hf.placed a).congr ?_ ?_
      · rw [hlive, tokens_cons_of_ne ha]
      · rw [hlog, history_of_ne _ ha, List.append_nil]
  · intro a
    simp only [Set.mem_sdiff, Set.mem_singleton_iff, hf.waiting a, hlive, Multiset.mem_cons,
      Prod.mk.injEq, exists_or, exists_and_left, exists_eq, and_true]
    constructor
    · intro h
      obtain ⟨rfl | hrest, hne⟩ := h
      · exact absurd rfl hne
      · exact hrest
    · intro h
      obtain ⟨t, ht⟩ := h
      refine ⟨.inr ⟨t, ht⟩, ?_⟩
      intro heq
      subst heq
      exact tokens_eq_zero.1 hzero t ht

/-! ## What a valid flow says of a call -/

/-- The places where a call is, each as often as it is there. -/
def places (f : Flow K) (id : CallId) : Multiset CallPlace :=
  (tokens f.live id).map Token.place +
    ((history f.log id).filter CallEvent.isCompleted).map fun _ => CallPlace.completed

/-- What can be said of a call at any time. -/
structure Agrees (side : String) (f : Flow K) (id : CallId) : Prop where
  /-- a call that was never made is nowhere, and nothing has happened to it -/
  unissued : id ∉ issuedIds f.log → f.places id = 0 ∧ history f.log id = []
  /-- a call that was made is in one place, once -/
  place : id ∈ issuedIds f.log → ∃ p, f.places id = {p}
  issued_once : (history f.log id).countP CallEvent.isIssued ≤ 1
  served_once : (history f.log id).countP CallEvent.isServed ≤ 1
  ran_once : (history f.log id).countP CallEvent.isRan ≤ 1
  completed_once : (history f.log id).countP CallEvent.isCompleted ≤ 1
  /-- all that has happened to a call that is over: its outcome is what the wire makes of the result
  of the one time that it was served -/
  outcome : ∀ o, .completed o ∈ history f.log id →
    ∃ target xs h args h₁ found runs r h₂ h₃, packArgs h xs = .ok args ∧
      Served side target args h₁ found runs r ∧ Transported h₂ h₃ r o ∧
      history f.log id = [.issued target xs h, .served target args h₁ found] ++ runs ++
        [.answered r h₂, .received h₃ o, .completed o]

end Flow

section
variable {K : Type} {side : String} {id : CallId} {t : Token} {past : List (CallEvent K)}

/-- How often each thing has happened to a call that is on its way. -/
structure CallEvent.Counts (past : List (CallEvent K)) : Prop where
  issued : past.countP isIssued = 1
  served : past.countP isServed ≤ 1
  ran : past.countP isRan ≤ 1
  completed : past.countP isCompleted = 0

lemma Story.counts (story : Story side id t past) : CallEvent.Counts past := by
  cases t with
  | calling =>
    obtain ⟨xs, h, -, rfl⟩ := story.eq_of_calling
    exact ⟨rfl, Nat.zero_le 1, Nat.zero_le 1, rfl⟩
  | taken =>
    obtain ⟨xs, h, -, rfl⟩ := story.eq_of_taken
    exact ⟨rfl, Nat.zero_le 1, Nat.zero_le 1, rfl⟩
  | handled =>
    obtain ⟨_, _, _, _, _, _, _, _, _, -, -, rfl⟩ := story.eq_of_handled
    exact ⟨rfl, Nat.le_refl 1, Nat.le_refl 1, rfl⟩
  | refused =>
    obtain ⟨_, _, _, _, _, _, -, -, rfl⟩ := story.eq_of_refused
    exact ⟨rfl, Nat.le_refl 1, Nat.zero_le 1, rfl⟩
  | answering =>
    obtain ⟨_, _, _, _, _, _, _, _, _, -, hserved, -, rfl⟩ := story.eq_of_answering
    cases hserved with
    | unknown => exact ⟨rfl, Nat.le_refl 1, Nat.zero_le 1, rfl⟩
    | ran => exact ⟨rfl, Nat.le_refl 1, Nat.le_refl 1, rfl⟩
  | aside =>
    obtain ⟨_, _, _, _, _, _, _, _, _, _, -, hserved, -, rfl⟩ := story.eq_of_aside
    cases hserved with
    | unknown => exact ⟨rfl, Nat.le_refl 1, Nat.zero_le 1, rfl⟩
    | ran => exact ⟨rfl, Nat.le_refl 1, Nat.le_refl 1, rfl⟩

/-- A call on its way has not returned. -/
lemma CallEvent.Counts.not_completed (h : CallEvent.Counts past) (o : CallOutcome) :
    .completed o ∉ past :=
  fun hmem => List.countP_eq_zero.1 h.completed _ hmem rfl

end

namespace Flow
variable {K : Type} {side : String} {f : Flow K} {id : CallId}

/-- In a valid flow each call is in one place, and one that is over has had its answer. -/
theorem Valid.agrees (hf : f.Valid side) (id : CallId) : f.Agrees side id := by
  cases hf.placed id with
  | unissued htokens hpast =>
    have hnew : id ∉ issuedIds f.log := by
      rw [mem_issuedIds, hpast]
      simp
    refine ⟨fun _ => ⟨?_, hpast⟩, fun h => absurd h hnew, ?_, ?_, ?_, ?_, ?_⟩
    · rw [places, htokens, hpast]
      rfl
    all_goals rw [hpast]
    · exact Nat.zero_le 1
    · exact Nat.zero_le 1
    · exact Nat.zero_le 1
    · exact Nat.zero_le 1
    · simp
  | live t htokens story =>
    have hcounts := story.counts
    refine ⟨fun h => absurd (mem_issuedIds.2 story.issued_mem) h, fun _ => ⟨t.place, ?_⟩,
      hcounts.issued.le, hcounts.served, hcounts.ran,
      hcounts.completed.trans_le (Nat.zero_le 1), ?_⟩
    · have hnone : (history f.log id).filter CallEvent.isCompleted = [] :=
        List.filter_eq_nil_iff.2 (List.countP_eq_zero.1 hcounts.completed)
      rw [places, htokens, hnone]
      rfl
    · intro o ho
      exact absurd ho (hcounts.not_completed o)
  | completed o past htokens story hpast =>
    have hcounts := story.counts
    have hissued : ∃ e ∈ history f.log id, e.isIssued = true := by
      obtain ⟨e, he, hissued⟩ := story.issued_mem
      exact ⟨e, hpast ▸ List.mem_append_left _ he, hissued⟩
    -- a call that is over has no token, its place is its return in the past
    refine ⟨fun h => absurd (mem_issuedIds.2 hissued) h, fun _ => ⟨.completed, ?_⟩,
      ?_, ?_, ?_, ?_, ?_⟩
    · have hnone : past.filter CallEvent.isCompleted = [] :=
        List.filter_eq_nil_iff.2 (List.countP_eq_zero.1 hcounts.completed)
      rw [places, htokens, hpast, List.filter_append, hnone]
      rfl
    all_goals rw [hpast]
    · rw [List.countP_append, hcounts.issued]
      exact Nat.le_refl 1
    · rw [List.countP_append]
      exact hcounts.served
    · rw [List.countP_append]
      exact hcounts.ran
    · rw [List.countP_append, hcounts.completed]
      exact Nat.le_refl 1
    · intro o' ho'
      -- the only event of this kind is the last one
      rcases List.mem_append.1 ho' with hmem | hmem
      · exact absurd hmem (hcounts.not_completed o')
      · obtain rfl : o' = o := by simpa using hmem
        obtain ⟨target, xs, h, args, h₁, found, runs, r, h₂, h₃, hpack, hserved, htransported,
          rfl⟩ := story.eq_of_aside
        exact ⟨target, xs, h, args, h₁, found, runs, r, h₂, h₃, hpack, hserved, htransported,
          by simp⟩

end Flow
end WorkerHost
