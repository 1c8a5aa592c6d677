import WorkerHost.Proofs.Lifecycle.Sharing

/-!
# The gate of a shared lifecycle

Whatever clients of a lifecycle do, and in whatever order, the callbacks of `onReady` are read once,
by the client that has taken the gate. It calls each of them once, and only then the gate opens.
Until then every other client waits in front of it, so nothing else is called or executed, and later
nobody calls these callbacks again.

* `GatePlace.rules` says what a client does in front of the gate, as it opens it, and behind it, and
  `GatePlace.obeys_program` that every errand keeps to that;
* `Shared.Gate` is what holds of all clients together, `Shared.Run.gate`;
* `Shared.Run.ready_once` says what comes of it for everything that can be seen;
* `Shared.Run.can_open`: the client that has taken the gate can open it without the others.
-/

namespace WorkerHost
variable {C : Type}

/-! ## One client -/

/-- Where a client is. -/
inductive GatePlace (C : Type) where
  | outside
  /-- it has taken the gate -/
  | opening
  /-- it has these callbacks left to call -/
  | firing (left : List C)
  | inside

namespace GatePlace

/-- What a client asks behind the gate. -/
def Inner : StageAsk C → Prop
  | .modify f => ∀ l, (f l).ready = l.ready
  | .callbacks phase | .invoke phase _ _ => phase ≠ .onReady
  | .get | .isReady | .code _ | .execute .. | .notify _ | .body => True

/-- How a client gets on. -/
inductive Goes : GatePlace C → StageExchange C → GatePlace C → Prop
  | passes : Goes outside ⟨.isReady, true⟩ inside
  | looks : Goes outside ⟨.isReady, false⟩ outside
  | finds {l : Lifecycle} (hready : l.ready = true) : Goes outside ⟨.get, l⟩ inside
  | takes {l : Lifecycle} (hready : l.ready = false) : Goes outside ⟨.get, l⟩ opening
  | reads (cs : List C) : Goes opening ⟨.callbacks .onReady, cs⟩ (firing cs)
  | calls (run : RunDescriptor) (c : C) (left : List C) (outcome : CallbackOutcome) :
      Goes (firing (c :: left)) ⟨.invoke .onReady run c, outcome⟩ (firing left)
  | complains (text : String) (left : List C) : Goes (firing left) ⟨.notify text, ()⟩ (firing left)
  | opens : Goes (firing []) ⟨.modify fun l => { l with ready := true }, ()⟩ inside
  | works (q : StageAsk C) (hq : Inner q) (r : q.Answer) : Goes inside ⟨q, r⟩ inside

/-- The rules of the gate. Behind it, it is open. -/
def rules : Rules (GatePlace C) (StageAsk C) StageAsk.Answer where
  fits
    | inside, ⟨.get, l⟩ => l.ready = true
    | _, _ => True
  goes := Goes

variable {name : C → String} {d : RunDescriptor} {mode : RunMode}

lemma goes_of_still (q : StageAsk C) (hq : q.Still (· ≠ .onReady)) (r : q.Answer) :
    Goes inside ⟨q, r⟩ inside := by
  refine .works q ?_ r
  cases q with
  | modify f => exact hq.elim
  | callbacks phase | invoke phase _ _ => exact hq
  | get | isReady | code phase | execute mode code | notify text | body => trivial

/-- The callbacks are called one by one, however each of them ends. -/
lemma obeys_callAll (cs : List C) : ((Stage.asking name).callAll .onReady d cs).Obeys rules
    (fun p _ => p = firing []) (firing cs) := by
  induction cs with
  | nil => exact .pure rfl
  | cons c rest ih =>
    refine .ask_bind fun outcome _ => ⟨_, .calls d c rest outcome, ?_⟩
    split
    · exact ih
    · refine .ask_bind fun _ _ => ⟨_, .complains _ rest, ?_⟩
      exact .bind ih fun p _ hp => .pure hp

lemma obeys_ensureReadyAsync :
    ((Stage.asking name).ensureReadyAsync d).Obeys rules (fun p _ => p = inside) outside := by
  refine .ask_bind fun l _ => ?_
  cases hready : l.ready with
  | true => exact ⟨_, .finds hready, .pure rfl⟩
  | false =>
    refine ⟨_, .takes hready, .bind (.ask_bind fun cs _ => ⟨_, .reads cs, obeys_callAll cs⟩) ?_⟩
    rintro p _ rfl
    exact .ask_bind (f := Pure.pure) fun _ _ => ⟨_, .opens, .pure rfl⟩

/-- Who blocks looks first, and may still have to wait after that. -/
lemma obeys_ensureReady :
    ((Stage.asking name).ensureReady d).Obeys rules (fun p _ => p = inside) outside := by
  refine .ask_bind fun ready _ => ?_
  cases ready with
  | true => exact ⟨_, .passes, .pure rfl⟩
  | false => exact ⟨_, .looks, obeys_ensureReadyAsync⟩

lemma obeys_gate :
    ((Stage.asking name).gate mode d).Obeys rules (fun p _ => p = inside) outside := by
  cases mode with
  | sync => exact obeys_ensureReady
  | async => exact obeys_ensureReadyAsync

/-- Behind the gate there is nothing to do about it. -/
lemma obeys_gate_inside :
    ((Stage.asking name).gate mode d).Obeys rules (fun p _ => p = inside) inside := by
  have hasync : ((Stage.asking name).ensureReadyAsync d).Obeys rules (fun p _ => p = inside)
      inside := by
    refine .ask_bind fun l hready => ⟨inside, .works .get trivial l, ?_⟩
    rw [show l.ready = true from hready]
    exact .pure rfl
  cases mode with
  | async => exact hasync
  | sync =>
    refine .ask_bind fun ready _ => ⟨inside, .works .isReady trivial ready, ?_⟩
    cases ready with
    | true => exact .pure rfl
    | false => exact hasync

/-- A note in the run table leaves the gate alone. -/
lemma obeys_modify {α : Type} {f : Lifecycle → Lifecycle} (hf : ∀ l, (f l).ready = l.ready)
    {rest : Unit → StageTask C α} {post : GatePlace C → α → Prop}
    (hrest : (rest ()).Obeys rules post inside) :
    ((Stage.asking name).modify f >>= rest).Obeys rules post inside :=
  .ask_bind fun _ _ => ⟨inside, .works (.modify f) hf (), hrest⟩

lemma obeys_beforeRun {p : GatePlace C}
    (hp : ((Stage.asking name).gate mode d).Obeys rules (fun p _ => p = inside) p) :
    ((Stage.asking name).beforeRun mode d).Obeys rules (fun p _ => p = inside) p := by
  rw [Stage.beforeRun_eq]
  refine .bind hp ?_
  rintro _ _ rfl
  refine obeys_modify (by exact fun _ => rfl) ?_
  refine .still_bind (Stage.Asking.asks_executeCode (by cases mode <;> decide)) goes_of_still ?_
  rintro (e | u)
  · exact obeys_modify (by exact fun _ => rfl) (.pure rfl)
  · refine .still_bind (Stage.Asking.asks_fire (by cases mode <;> decide)) goes_of_still fun _ => ?_
    exact obeys_modify (by exact fun _ => rfl) (.pure rfl)

lemma obeys_afterRun (outcome : Except RunError Value) :
    ((Stage.asking name).afterRun mode d outcome).Obeys rules (fun p _ => p = inside) inside := by
  rw [Stage.afterRun_eq]
  refine obeys_modify (by exact fun _ => rfl) ?_
  refine .still_bind (Stage.Asking.asks_afterPhases (by cases mode <;> decide)
    (by cases mode <;> decide)) goes_of_still fun _ => ?_
  exact obeys_modify (by exact fun _ => rfl) (.pure rfl)

lemma obeys_around {p : GatePlace C} {body : StageTask C (Except RunError Value)}
    (hp : ((Stage.asking name).gate mode d).Obeys rules (fun p _ => p = inside) p)
    (hbody : body.Asks (StageAsk.Still (· ≠ .onReady))) :
    ((Stage.asking name).around mode d body).Obeys rules (fun p _ => p = inside) p := by
  rw [Stage.around_eq]
  refine .bind (obeys_beforeRun hp) ?_
  rintro _ (e | u) rfl
  · exact .pure rfl
  · refine .still_bind hbody goes_of_still fun outcome => ?_
    refine .still_bind (Stage.Asking.asks_reportFailure outcome) goes_of_still fun _ => ?_
    exact obeys_afterRun outcome

/-- Every errand keeps to the rules of the gate, and ends behind it. -/
theorem obeys_program (name : C → String) (d : RunDescriptor) (errand : Errand) :
    (errand.program name d).Obeys rules (fun p _ => p = inside) outside := by
  cases errand with
  | ready mode => exact obeys_gate
  | run mode code =>
    have hrun : ((Stage.asking name).run mode d code).Obeys rules (fun p _ => p = inside)
        outside := by
      rw [Stage.run_eq]
      exact obeys_around obeys_gate (Stage.Asking.asks_executeUser code)
    exact .bind hrun fun p _ hp => .pure hp
  | drive mode =>
    refine .bind obeys_ensureReadyAsync ?_
    rintro _ _ rfl
    refine .bind (obeys_around obeys_gate_inside (.ask trivial)) ?_
    exact fun p _ hp => .pure hp
  | phases before after =>
    refine .bind (obeys_beforeRun obeys_gate) ?_
    rintro _ (e | u) rfl
    · exact .pure rfl
    · refine .ask_bind fun outcome _ => ⟨inside, .works .body trivial outcome, ?_⟩
      exact .bind (obeys_afterRun outcome) fun p _ hp => .pure hp

/-- A client at a place. -/
def Holds (c : Client C) (p : GatePlace C) : Prop :=
  c.rest.Obeys rules (fun p _ => p = inside) p

lemma exists_fits (p : GatePlace C) (q : StageAsk C) : ∃ r, rules.fits p ⟨q, r⟩ := by
  obtain ⟨r⟩ := q.nonempty_answer
  cases q with
  | get => exact ⟨{ Lifecycle.new .callbacksFirst with ready := true }, by cases p <;> trivial⟩
  | _ => exact ⟨r, by cases p <;> trivial⟩

/-- A client asks only what leads somewhere. -/
lemma Holds.goes {c : Client C} {p : GatePlace C} {q : StageAsk C} {s : Unit}
    {resume : q.Answer → Unit → StageStep C Unit} (h : Holds c p)
    (hrest : c.rest = .ask q s resume) : ∃ r p', Goes p ⟨q, r⟩ p' := by
  unfold Holds at h
  rw [hrest] at h
  obtain ⟨r, hr⟩ := exists_fits p q
  obtain ⟨p', hgoes, -⟩ := h r hr
  exact ⟨r, p', hgoes⟩

end GatePlace

/-! ## What can be seen -/

namespace Moment

/-- The callback of `onReady` that is called. -/
def called? : Moment C → Option C
  | began _ (.invoke .onReady _ c) => some c
  | _ => none

/-- The callback of `onReady` that returns. -/
def returned? : Moment C → Option C
  | ended _ ⟨.invoke .onReady _ c, _⟩ => some c
  | _ => none

/-- The callbacks of `onReady` as they are read. -/
def read? : Moment C → Option (List C)
  | ended _ ⟨.callbacks .onReady, cs⟩ => some cs
  | _ => none

/-- What has to wait for the gate: callbacks of any other phase, code, and whatever else the phases
are around. -/
def Works : Moment C → Prop
  | began _ (.invoke phase ..) => phase ≠ .onReady
  | began _ (.execute ..) | began _ .body => True
  | _ => False

/-- Nothing of all this. -/
structure Idle (m : Moment C) : Prop where
  called : m.called? = none
  returned : m.returned? = none
  read : m.read? = none
  works : ¬ m.Works

lemma idle_began {i : ℕ} {q : StageAsk C}
    (h : q = .get ∨ q = .isReady ∨ q = .callbacks .onReady) : (began i q).Idle := by
  obtain rfl | rfl | rfl := h <;> exact ⟨rfl, rfl, rfl, id⟩

lemma idle_found (i : ℕ) (l : Lifecycle) : (ended i ⟨.get, l⟩ : Moment C).Idle :=
  ⟨rfl, rfl, rfl, id⟩

lemma idle_looked (i : ℕ) (ready : Bool) : (ended i ⟨.isReady, ready⟩ : Moment C).Idle :=
  ⟨rfl, rfl, rfl, id⟩

/-- Behind the gate no callback of `onReady` is called. -/
lemma called?_of_inner (i : ℕ) {q : StageAsk C} (h : GatePlace.Inner q) :
    (began i q).called? = none := by
  cases q with
  | invoke phase run c =>
    cases phase with
    | onReady => exact absurd rfl h
    | _ => rfl
  | _ => rfl

lemma idle_of_inner (i : ℕ) {q : StageAsk C} (h : GatePlace.Inner q) (r : q.Answer) :
    (ended i ⟨q, r⟩).Idle := by
  cases q with
  | invoke phase run c =>
    cases phase with
    | onReady => exact absurd rfl h
    | _ => exact ⟨rfl, rfl, rfl, id⟩
  | callbacks phase =>
    cases phase with
    | onReady => exact absurd rfl h
    | _ => exact ⟨rfl, rfl, rfl, id⟩
  | _ => exact ⟨rfl, rfl, rfl, id⟩

end Moment

/-- What can be seen since the callbacks `cs` of `onReady` were read: these ones have been called,
and those have returned, and nothing else was called or executed before all of `cs` had returned. -/
structure Fired (cs called returned : List C) (log : List (Moment C)) : Prop where
  called : log.filterMap Moment.called? = called
  returned : log.filterMap Moment.returned? = returned
  read : log.filterMap Moment.read? = []
  works : ∀ first m rest, log = first ++ m :: rest → m.Works →
    first.filterMap Moment.returned? = cs

namespace Fired
variable {cs called returned : List C} {log : List (Moment C)} {m : Moment C}

lemma nil (cs : List C) : Fired cs [] [] [] where
  called := rfl
  returned := rfl
  read := rfl
  works first m rest h := by simp at h

lemma snoc (h : Fired cs called returned log) (hread : m.read? = none)
    (hworks : m.Works → returned = cs) :
    Fired cs (called ++ m.called?.toList) (returned ++ m.returned?.toList) (log ++ [m]) where
  called := by
    rw [List.filterMap_append, h.called]
    cases hm : m.called? <;> simp [hm]
  returned := by
    rw [List.filterMap_append, h.returned]
    cases hm : m.returned? <;> simp [hm]
  read := by simp [List.filterMap_append, h.read, hread]
  works first m' rest heq hm' := by
    obtain rfl | ⟨rest, last, rfl⟩ := List.eq_nil_or_concat rest
    · obtain ⟨rfl, hlast⟩ := List.append_inj' heq rfl
      obtain rfl := List.singleton_inj.1 hlast
      exact h.returned.trans (hworks hm')
    · rw [List.concat_eq_append, ← List.cons_append, ← List.append_assoc] at heq
      exact h.works first m' rest (List.append_inj' heq rfl).1 hm'

lemma snoc_idle (h : Fired cs called returned log) (hm : m.Idle) :
    Fired cs called returned (log ++ [m]) := by
  have hsnoc := h.snoc hm.read fun hworks => absurd hworks hm.works
  rwa [hm.called, hm.returned, Option.toList_none, List.append_nil, List.append_nil] at hsnoc

end Fired

/-! ## All clients -/

/-- The callback of `onReady` that a client is in the middle of. -/
def Client.calling (c : Client C) : List C :=
  match c.asked, c.rest with
  | true, .ask (.invoke .onReady _ c) _ _ => [c]
  | _, _ => []

lemma Client.calling_of_idle {c : Client C} (h : c.asked = false) : c.calling = [] := by
  simp [calling, h]

namespace Fired
variable {cs left returned : List C} {after : List (Moment C)} {i : ℕ} {c : Client C}
  {q : StageAsk C} {s : Unit} {resume : q.Answer → Unit → StageStep C Unit}

/-- The client that calls the callbacks goes on to the next one, or to something else. -/
lemma asks (hfired : Fired cs (returned ++ c.calling) returned after)
    (hholds : GatePlace.Holds c (.firing left)) (hrest : c.rest = .ask q s resume)
    (hasked : c.asked = false) :
    Fired cs (returned ++ { c with asked := true }.calling) returned (after ++ [.began i q]) := by
  obtain ⟨r, p', hgoes⟩ := hholds.goes hrest
  rw [Client.calling_of_idle hasked, List.append_nil] at hfired
  cases hgoes with
  | calls run e left outcome =>
    have hcalling : { c with asked := true }.calling = [e] := by simp [Client.calling, hrest]
    have hcalled : (Moment.began i (.invoke .onReady run e)).called? = some e := rfl
    have hreturned : (Moment.began i (.invoke .onReady run e)).returned? = none := rfl
    have hsnoc := hfired.snoc (m := .began i (.invoke .onReady run e)) rfl fun h => (h rfl).elim
    rw [hcalled, hreturned, Option.toList_none, List.append_nil] at hsnoc
    rwa [hcalling]
  | complains | opens =>
    have hcalling : { c with asked := true }.calling = [] := by simp [Client.calling, hrest]
    rw [hcalling, List.append_nil]
    exact hfired.snoc_idle ⟨rfl, rfl, rfl, id⟩

/-- Behind the open gate anything else may begin. -/
lemma began (hfired : Fired cs cs cs after) {p : GatePlace C} (hp : p = .outside ∨ p = .inside)
    (hholds : GatePlace.Holds c p) (hrest : c.rest = .ask q s resume) :
    Fired cs cs cs (after ++ [.began i q]) := by
  obtain ⟨r, p', hgoes⟩ := hholds.goes hrest
  cases hgoes with
  | passes | looks | finds | takes => exact hfired.snoc_idle (Moment.idle_began (by simp))
  | works _ hq =>
    have hread : (Moment.began i q).read? = none := rfl
    have hreturned : (Moment.began i q).returned? = none := rfl
    have hsnoc := hfired.snoc hread fun _ => rfl
    rwa [Moment.called?_of_inner i hq, hreturned, Option.toList_none, List.append_nil] at hsnoc
  | reads | calls | complains | opens => simp at hp

end Fired

namespace Shared
variable {name : C → String} {start y y' : Shared C} {log before after : List (Moment C)}
  {place : ℕ → GatePlace C} {i j : ℕ} {c : Client C} {cs left : List C}

/-- The callbacks `cs` of `onReady` were read, with nothing before that, and what has been seen
since. -/
def ReadsReady (name : C → String) (start : Shared C) (log : List (Moment C)) (cs : List C)
    (after : List (Moment C)) : Prop :=
  ∃ before i y, log = before ++ .ended i ⟨.callbacks .onReady, cs⟩ :: after ∧
    Run name start before y ∧ cs = y.registry.callbacksOf .onReady ∧ ∀ m ∈ before, m.Idle

lemma ReadsReady.snoc (h : ReadsReady name start log cs after) (m : Moment C) :
    ReadsReady name start (log ++ [m]) cs (after ++ [m]) := by
  obtain ⟨before, i, y, rfl, hrun, hcs, hidle⟩ := h
  exact ⟨before, i, y, by rw [List.append_assoc, List.cons_append], hrun, hcs, hidle⟩

/-- Nobody but one client is in front of the gate or behind it. -/
def Alone (place : ℕ → GatePlace C) (i : ℕ) (p : GatePlace C) : Prop :=
  place i = p ∧ ∀ j, j ≠ i → place j = .outside

/-- Where the clients are, and what they have done. -/
inductive Gate (name : C → String) (start : Shared C) (place : ℕ → GatePlace C)
    (log : List (Moment C)) (y : Shared C) : Prop
  /-- nobody has come to the gate -/
  | closed (hready : y.lifecycle.ready = false) (hopener : y.opener = none)
      (hplace : ∀ i, place i = .outside) (hidle : ∀ m ∈ log, m.Idle)
  /-- one has taken it -/
  | taken {i : ℕ} (hready : y.lifecycle.ready = false) (hopener : y.opener = some i)
      (hplace : Alone place i .opening) (hidle : ∀ m ∈ log, m.Idle)
  /-- and calls the callbacks -/
  | firing {i : ℕ} {c : Client C} {cs left returned : List C} {after : List (Moment C)}
      (hready : y.lifecycle.ready = false) (hopener : y.opener = some i)
      (hplace : Alone place i (.firing left)) (hread : ReadsReady name start log cs after)
      (hcs : returned ++ left = cs) (hi : y.clients[i]? = some c)
      (hfired : Fired cs (returned ++ c.calling) returned after)
  /-- the gate is open -/
  | opened {cs : List C} {after : List (Moment C)} (hready : y.lifecycle.ready = true)
      (hplace : ∀ i, place i = .outside ∨ place i = .inside)
      (hread : ReadsReady name start log cs after) (hfired : Fired cs cs cs after)

/-! ### Questions -/

section
variable {q : StageAsk C} {s : Unit} {resume : q.Answer → Unit → StageStep C Unit}
  {returned : List C}

/-- What a client is in the middle of comes next. -/
lemma calling_prefix (h : GatePlace.Holds c (.firing left)) : c.calling <+: left := by
  unfold Client.calling
  split
  · rename_i hrest
    obtain ⟨r, p', hgoes⟩ := h.goes hrest
    cases hgoes
    exact ⟨_, rfl⟩
  · exact List.nil_prefix

/-- A client puts a question. -/
lemma Gate.asks (h : Gate name start place log y)
    (hstands : Stands GatePlace.Holds place y.clients) (hi : y.clients[i]? = some c)
    (hrest : c.rest = .ask q s resume) (hasked : c.asked = false) :
    Gate name start place (log ++ [.began i q])
      { y with clients := y.clients.set i { c with asked := true } } := by
  have hholds := hstands i c hi
  obtain ⟨r, p', hgoes⟩ := hholds.goes hrest
  have hidle_snoc (hidle : ∀ m ∈ log, m.Idle)
      (hq : q = .get ∨ q = .isReady ∨ q = .callbacks .onReady) :
      ∀ m ∈ log ++ [.began i q], m.Idle := by
    intro m hm
    obtain hm | hm := List.mem_append.1 hm
    · exact hidle m hm
    · rw [List.mem_singleton.1 hm]
      exact Moment.idle_began hq
  cases h with
  | closed hready hopener hplace hidle =>
    rw [hplace] at hgoes
    exact .closed hready hopener hplace (hidle_snoc hidle (by cases hgoes <;> simp))
  | @taken j hready hopener hplace hidle =>
    refine .taken hready hopener hplace (hidle_snoc hidle ?_)
    by_cases hij : i = j
    · subst hij
      rw [hplace.1] at hgoes
      cases hgoes
      simp
    · rw [hplace.2 i hij] at hgoes
      cases hgoes <;> simp
  | @firing j d cs left returned after hready hopener hplace hread hcs hj hfired =>
    by_cases hij : i = j
    · subst hij
      obtain rfl := Option.some.inj (hi.symm.trans hj)
      rw [hplace.1] at hholds
      refine .firing hready hopener hplace (hread.snoc _) hcs ?_ (hfired.asks hholds hrest hasked)
      exact List.getElem?_set_self (List.getElem?_eq_some_iff.1 hi).1
    · rw [hplace.2 i hij] at hgoes
      refine .firing hready hopener hplace (hread.snoc _) hcs ?_ (hfired.snoc_idle ?_)
      · exact (List.getElem?_set_ne hij).trans hj
      · exact Moment.idle_began (by cases hgoes <;> simp)
  | opened hready hplace hread hfired =>
    exact .opened hready hplace (hread.snoc _) (hfired.began (hplace i) hholds hrest)

/-! ### Answers -/

/-- Once a client is behind the gate, the gate is open. -/
lemma Gate.ready (h : Gate name start place log y) (hi : place i = .inside) :
    y.lifecycle.ready = true := by
  have halone {j : ℕ} {p : GatePlace C} (hp : p ≠ .inside) : ¬ Alone place j p := by
    rintro ⟨hj, hothers⟩
    by_cases hij : i = j
    · exact hp (hj ▸ hij ▸ hi)
    · rw [hothers i hij] at hi
      cases hi
  cases h with
  | closed _ _ hplace =>
    rw [hplace] at hi
    cases hi
  | taken _ _ hplace => exact absurd hplace (halone (by simp))
  | firing _ _ hplace => exact absurd hplace (halone (by simp))
  | opened hready => exact hready

/-- One client is somewhere, and goes on from there. -/
lemma Alone.update {p p' : GatePlace C} (h : Alone place i p) :
    Alone (Function.update place i p') i p' :=
  ⟨Function.update_self .., fun j hj => (Function.update_of_ne hj ..).trans (h.2 j hj)⟩

variable {r : q.Answer} {l : Lifecycle} {opener : Option ℕ} {p : GatePlace C}

/-- Nobody gets past the gate as long as another one holds it; all that one can do is to look. -/
lemma looks_of_held (hready : y.lifecycle.ready = false) (hopener : y.opener = some j)
    (hgoes : GatePlace.Goes .outside ⟨q, r⟩ p) (hanswer : y.Answers i ⟨q, r⟩ l opener) :
    p = .outside ∧ l = y.lifecycle ∧ opener = y.opener ∧ (Moment.ended i ⟨q, r⟩).Idle := by
  cases hgoes with
  | looks =>
    cases hanswer
    exact ⟨rfl, rfl, rfl, Moment.idle_looked i _⟩
  | passes | finds | takes => cases hanswer <;> simp_all

/-- The client that calls the callbacks goes on, and with the last answer the gate is open. -/
lemma Gate.hears_firing {returned : List C} (hready : y.lifecycle.ready = false)
    (hopener : y.opener = some i) (hplace : Alone place i (.firing left))
    (hread : ReadsReady name start log cs after) (hcs : returned ++ left = cs)
    (hi : y.clients[i]? = some c) (hfired : Fired cs (returned ++ c.calling) returned after)
    (hrest : c.rest = .ask q s resume) (hasked : c.asked = true)
    (hanswer : y.Answers i ⟨q, r⟩ l opener) (hgoes : GatePlace.Goes (.firing left) ⟨q, r⟩ p) :
    Gate name start (Function.update place i p) (log ++ [.ended i ⟨q, r⟩])
      { y with
        lifecycle := l
        opener := opener
        clients := y.clients.set i
          { c with heard := c.heard ++ [⟨q, r⟩], rest := resume r (), asked := false } } := by
  have hset (d : Client C) : (y.clients.set i d)[i]? = some d :=
    List.getElem?_set_self (List.getElem?_eq_some_iff.1 hi).1
  cases hgoes with
  | calls run e left outcome =>
    -- the callback that it was in the middle of has returned
    cases hanswer
    have hcalling : c.calling = [e] := by simp [Client.calling, hasked, hrest]
    have hreturned : (Moment.ended i ⟨.invoke .onReady run e, outcome⟩).returned? = some e := rfl
    have hcalled : (Moment.ended i ⟨.invoke .onReady run e, outcome⟩).called? = none := rfl
    have hsnoc := hfired.snoc (m := .ended i ⟨.invoke .onReady run e, outcome⟩) rfl False.elim
    rw [hcalling, hcalled, hreturned, Option.toList_some, Option.toList_none, List.append_nil]
      at hsnoc
    have hleft : returned ++ [e] ++ left = cs := by rwa [List.append_assoc]
    refine .firing hready hopener hplace.update (hread.snoc _) hleft (hset _) ?_
    rwa [Client.calling_of_idle rfl, List.append_nil]
  | complains text left =>
    cases hanswer
    have hcalling : c.calling = [] := by simp [Client.calling, hasked, hrest]
    rw [hcalling] at hfired
    refine .firing hready hopener hplace.update (hread.snoc _) hcs (hset _) ?_
    rw [Client.calling_of_idle rfl]
    exact hfired.snoc_idle ⟨rfl, rfl, rfl, id⟩
  | opens =>
    cases hanswer
    have hcalling : c.calling = [] := by simp [Client.calling, hasked, hrest]
    rw [List.append_nil] at hcs
    rw [hcalling, List.append_nil, hcs] at hfired
    refine .opened rfl (fun j => ?_) (hread.snoc _) (hfired.snoc_idle ⟨rfl, rfl, rfl, id⟩)
    by_cases hj : j = i
    · exact .inr (hj ▸ Function.update_self ..)
    · exact .inl (hplace.update.2 j hj)

/-- Behind the open gate a client gets any answer. -/
lemma Gate.hears_opened (hready : y.lifecycle.ready = true)
    (hplace : ∀ i, place i = .outside ∨ place i = .inside)
    (hanswer : y.Answers i ⟨q, r⟩ l opener) (hgoes : GatePlace.Goes (place i) ⟨q, r⟩ p) :
    p = .inside ∧ l.ready = true ∧ (Moment.ended i ⟨q, r⟩).Idle := by
  obtain hi | hi := hplace i
  · rw [hi] at hgoes
    cases hgoes with
    | passes =>
      cases hanswer
      exact ⟨rfl, hready, Moment.idle_looked i _⟩
    | finds hopen =>
      cases hanswer <;> exact ⟨rfl, hopen, Moment.idle_found i _⟩
    | looks | takes => cases hanswer <;> simp_all
  · rw [hi] at hgoes
    cases hgoes with
    | works _ hq =>
      refine ⟨rfl, ?_, Moment.idle_of_inner i hq r⟩
      cases hanswer with
      | modify f => exact (hq _).trans hready
      | _ => exact hready

/-- A client gets an answer. -/
lemma Gate.hears (h : Gate name start place log y) (hrun : Run name start log y)
    (hi : y.clients[i]? = some c) (hrest : c.rest = .ask q s resume) (hasked : c.asked = true)
    (hanswer : y.Answers i ⟨q, r⟩ l opener) (hgoes : GatePlace.Goes (place i) ⟨q, r⟩ p) :
    Gate name start (Function.update place i p) (log ++ [.ended i ⟨q, r⟩])
      { y with
        lifecycle := l
        opener := opener
        clients := y.clients.set i
          { c with heard := c.heard ++ [⟨q, r⟩], rest := resume r (), asked := false } } := by
  -- who only looks stays where it is
  have hstays {j : ℕ} (hij : i ≠ j) {p' : GatePlace C} (hplace : Alone place j p')
      (hp : p = .outside) : Alone (Function.update place i p) j p' := by
    rwa [hp, ← hplace.2 i hij, Function.update_eq_self]
  cases h with
  | closed hready hopener hplace hidle =>
    have halone : Alone place i .outside := ⟨hplace i, fun j _ => hplace j⟩
    have hidle_looked (ready : Bool) : ∀ m ∈ log ++ [.ended i ⟨.isReady, ready⟩], m.Idle :=
      fun m hm => (List.mem_append.1 hm).elim (hidle m) fun hm =>
        List.mem_singleton.1 hm ▸ Moment.idle_looked i ready
    rw [hplace] at hgoes
    cases hgoes with
    | passes | finds => cases hanswer <;> simp_all
    | looks =>
      cases hanswer
      refine .closed hready hopener (fun j => ?_) (hidle_looked _)
      rw [← hplace i, Function.update_eq_self, hplace, hplace]
    | @takes l hclosed =>
      cases hanswer with
      | finds hopen => simp_all
      | takes =>
        refine .taken hready rfl halone.update fun m hm => ?_
        obtain hm | hm := List.mem_append.1 hm
        · exact hidle m hm
        · exact List.mem_singleton.1 hm ▸ Moment.idle_found i _
  | @taken j hready hopener hplace hidle =>
    by_cases hij : i = j
    · subst hij
      rw [hplace.1] at hgoes
      cases hgoes with
      | reads cs =>
        cases hanswer with
        | callbacks =>
          refine .firing hready hopener hplace.update ⟨log, i, y, rfl, hrun, rfl, hidle⟩
            (List.nil_append _) (List.getElem?_set_self (List.getElem?_eq_some_iff.1 hi).1) ?_
          rw [Client.calling_of_idle rfl]
          exact .nil _
    · rw [hplace.2 i hij] at hgoes
      obtain ⟨hp, rfl, rfl, hmoment⟩ := looks_of_held hready hopener hgoes hanswer
      refine .taken hready hopener (hstays hij hplace hp) fun m hm => ?_
      exact (List.mem_append.1 hm).elim (hidle m) fun hm => List.mem_singleton.1 hm ▸ hmoment
  | @firing j d cs left returned after hready hopener hplace hread hcs hj hfired =>
    by_cases hij : i = j
    · subst hij
      obtain rfl := Option.some.inj (hi.symm.trans hj)
      rw [hplace.1] at hgoes
      exact Gate.hears_firing hready hopener hplace hread hcs hi hfired hrest hasked hanswer hgoes
    · rw [hplace.2 i hij] at hgoes
      obtain ⟨hp, rfl, rfl, hmoment⟩ := looks_of_held hready hopener hgoes hanswer
      exact .firing hready hopener (hstays hij hplace hp) (hread.snoc _) hcs
        ((List.getElem?_set_ne hij).trans hj) (hfired.snoc_idle hmoment)
  | opened hready hplace hread hfired =>
    obtain ⟨rfl, hready', hidle⟩ := Gate.hears_opened hready hplace hanswer hgoes
    refine .opened hready' (fun j => ?_) (hread.snoc _) (hfired.snoc_idle hidle)
    by_cases hj : j = i
    · exact .inr (hj ▸ Function.update_self ..)
    · rw [Function.update_of_ne hj]
      exact hplace j

end

/-! ### Runs -/

/-- Nobody stands anywhere yet who has not joined. -/
def Unjoined (place : ℕ → GatePlace C) (clients : List (Client C)) : Prop :=
  ∀ i, clients.length ≤ i → place i = .outside

/-- Who joins stands in front of the gate. -/
lemma Gate.joins (h : Gate name start place log y) {l : Lifecycle}
    (hl : l.ready = y.lifecycle.ready) (c : Client C) (issued : ℕ) : Gate name start place log
      { y with lifecycle := l, clients := y.clients ++ [c], issued := issued } := by
  cases h with
  | closed hready hopener hplace hidle => exact .closed (hl.trans hready) hopener hplace hidle
  | taken hready hopener hplace hidle => exact .taken (hl.trans hready) hopener hplace hidle
  | firing hready hopener hplace hread hcs hi hfired =>
    have hlt := (List.getElem?_eq_some_iff.1 hi).1
    exact .firing (hl.trans hready) hopener hplace hread hcs
      ((List.getElem?_append_left hlt).trans hi) hfired
  | opened hready hplace hread hfired => exact .opened (hl.trans hready) hplace hread hfired

lemma Gate.registers (h : Gate name start place log y) (registry : Registry C) :
    Gate name start place log { y with registry := registry } := by
  cases h with
  | closed hready hopener hplace hidle => exact .closed hready hopener hplace hidle
  | taken hready hopener hplace hidle => exact .taken hready hopener hplace hidle
  | firing hready hopener hplace hread hcs hi hfired =>
    exact .firing hready hopener hplace hread hcs hi hfired
  | opened hready hplace hread hfired => exact .opened hready hplace hread hfired

/-- An answer is such as can be counted on. -/
lemma Gate.fits (h : Gate name start place log y) {q : StageAsk C} {r : q.Answer} {l : Lifecycle}
    {opener : Option ℕ} (hanswer : y.Answers i ⟨q, r⟩ l opener) :
    GatePlace.rules.fits (place i) ⟨q, r⟩ := by
  cases hi : place i with
  | inside => cases hanswer <;> first | exact h.ready hi | trivial
  | _ => trivial

/-- Whatever the clients do, they stand somewhere, and all is as it should be with the gate. -/
theorem Run.gate {order : AfterRunOrder} {registry : Registry C}
    (h : Run name (new order registry) log y) : ∃ place,
      Stands GatePlace.Holds place y.clients ∧ Unjoined place y.clients ∧
      Gate name (new order registry) place log y := by
  induction h with
  | refl =>
    refine ⟨fun _ => .outside, by simp [Stands, new], fun _ _ => rfl, ?_⟩
    exact .closed rfl rfl (fun _ => rfl) (by simp)
  | @step log ms y y' hrun hmove ih =>
    obtain ⟨place, hstands, hunjoined, hgate⟩ := ih
    have hnew (errand : Errand) (d : RunDescriptor) :
        GatePlace.Holds (.new name errand d) (place y.clients.length) := by
      rw [hunjoined _ (Nat.le_refl _)]
      exact GatePlace.obeys_program name d errand ()
    have hlonger (c : Client C) : Unjoined place (y.clients ++ [c]) := fun i hi =>
      hunjoined i (by rw [List.length_append] at hi; omega)
    have hready (source : String) (mode : RunMode) :
        (y.lifecycle.descriptor source mode).2.ready = y.lifecycle.ready := rfl
    cases hmove with
    | joins errand source mode =>
      rw [List.append_nil]
      exact ⟨place, hstands.append (hnew _ _), hlonger _, hgate.joins (hready _ _) _ _⟩
    | visits mode d =>
      rw [List.append_nil]
      exact ⟨place, hstands.append (hnew _ _), hlonger _, hgate.joins rfl _ _⟩
    | registers registry =>
      rw [List.append_nil]
      exact ⟨place, hstands, hunjoined, hgate.registers registry⟩
    | @asks i c q s resume hi hrest hasked =>
      have hlt := (List.getElem?_eq_some_iff.1 hi).1
      refine ⟨place, ?_, ?_, hgate.asks hstands hi hrest hasked⟩
      · rw [← Function.update_eq_self i place]
        exact hstands.set hlt (hstands i c hi)
      · simpa [Unjoined] using hunjoined
    | @hears i c q s r resume l opener hi hrest hasked hanswer =>
      have hlt := (List.getElem?_eq_some_iff.1 hi).1
      have hholds := hstands i c hi
      rw [GatePlace.Holds, hrest] at hholds
      obtain ⟨p, hgoes, hresume⟩ := hholds r (hgate.fits hanswer)
      refine ⟨Function.update place i p, hstands.set hlt (hresume ()), fun j hj => ?_,
        hgate.hears hrun hi hrest hasked hanswer hgoes⟩
      rw [List.length_set] at hj
      rw [Function.update_of_ne (by omega)]
      exact hunjoined j hj

/-- A client that is opening the gate goes on until it is open, whatever the others do not do. -/
lemma exists_open (name : C → String) {p : GatePlace C} (hi : y.clients[i]? = some c)
    (hholds : GatePlace.Holds c p) (hp : p = .opening ∨ ∃ left, p = .firing left) :
    ∃ log' y', Run name y log' y' ∧ y'.lifecycle.ready = true ∧ ∀ m ∈ log', m.client = i := by
  obtain ⟨x, hx⟩ : ∃ x, c.rest = x := ⟨_, rfl⟩
  induction x generalizing y c p with
  | done a s =>
    rw [GatePlace.Holds, hx] at hholds
    obtain rfl : p = .inside := hholds
    simp at hp
  | ask q s resume ih =>
    obtain ⟨r, p', hgoes⟩ := hholds.goes hx
    rw [GatePlace.Holds, hx] at hholds
    -- it goes on by some answer to its question, and then by what is left
    have hgo_on {r : q.Answer} {l : Lifecycle} {opener : Option ℕ}
        (hanswer : y.Answers i ⟨q, r⟩ l opener) (hfits : GatePlace.rules.fits p ⟨q, r⟩)
        (hnext : ∀ p', GatePlace.Goes p ⟨q, r⟩ p' → ∃ left, p' = .firing left) :
        ∃ log' y', Run name y log' y' ∧ y'.lifecycle.ready = true ∧ ∀ m ∈ log', m.client = i := by
      obtain ⟨first, y₁, hfirst, -, hi₁, hclient⟩ := Run.exchange hi hx hanswer
      obtain ⟨p', hgoes, hresume⟩ := hholds r hfits
      obtain ⟨rest, y', hrest, hready, hclient'⟩ :=
        ih r () hi₁ (hresume ()) (.inr (hnext p' hgoes)) rfl
      refine ⟨first ++ rest, y', hfirst.trans hrest, hready, fun m hm => ?_⟩
      exact (List.mem_append.1 hm).elim (hclient m) (hclient' m)
    cases hgoes with
    | passes | looks | finds | takes | works => simp at hp
    | reads cs =>
      exact hgo_on (.callbacks .onReady) trivial fun p' h => by cases h; exact ⟨_, rfl⟩
    | calls run e left outcome =>
      exact hgo_on (.invoke .onReady run e .done) trivial fun p' h => by cases h; exact ⟨_, rfl⟩
    | complains text left =>
      exact hgo_on (.notify text) trivial fun p' h => by cases h; exact ⟨_, rfl⟩
    | opens =>
      obtain ⟨last, y', hlast, hlifecycle, -, hclient⟩ := Run.exchange hi hx (.modify _)
      exact ⟨last, y', hlast, by rw [hlifecycle], hclient⟩

/-- The client that has taken the gate can always open it, without the others. -/
theorem Run.can_open {order : AfterRunOrder} {registry : Registry C}
    (h : Run name (new order registry) log y) (hopener : y.opener = some i)
    (hready : y.lifecycle.ready = false) :
    ∃ log' y', Run name y log' y' ∧ y'.lifecycle.ready = true ∧ ∀ m ∈ log', m.client = i := by
  obtain ⟨place, hstands, hunjoined, hgate⟩ := h.gate
  cases hgate with
  | closed _ hnone => simp [hnone] at hopener
  | opened hopen => simp [hopen] at hready
  | @taken j _ hj hplace =>
    obtain rfl := Option.some.inj (hopener.symm.trans hj)
    -- it has joined, as it is not in front of the gate
    have hlt : i < y.clients.length := by
      by_contra hge
      have hplace' := hplace.1
      rw [hunjoined i (by omega)] at hplace'
      cases hplace'
    have hi := List.getElem?_eq_getElem hlt
    exact exists_open name hi (hstands i _ hi) (.inl hplace.1)
  | @firing j c cs left _ _ _ hj hplace _ _ hi =>
    obtain rfl := Option.some.inj (hopener.symm.trans hj)
    exact exists_open name hi (hstands i c hi) (.inr ⟨left, hplace.1⟩)

/-- Any number of clients of a new lifecycle, in any order of their steps, whatever callbacks and
code do. Either the gate has not been opened, and nothing has been called or executed; or the
callbacks of `onReady` were read once. What has been called of them since is the beginning of their
list, and all of it when the gate is open, each of them once. Before the last one has returned, no
other callback, no code and no body begins. -/
theorem Run.ready_once {order : AfterRunOrder} {registry : Registry C}
    (h : Run name (new order registry) log y) :
    (y.lifecycle.ready = false ∧ ∀ m ∈ log, m.Idle) ∨
    ∃ before i cs after y₁ called returned,
      log = before ++ .ended i ⟨.callbacks .onReady, cs⟩ :: after ∧ (∀ m ∈ before, m.Idle) ∧
      Run name (new order registry) before y₁ ∧ cs = y₁.registry.callbacksOf .onReady ∧
      Fired cs called returned after ∧ returned <+: called ∧ called <+: cs ∧
      (y.lifecycle.ready = true → called = cs ∧ returned = cs) := by
  obtain ⟨place, hstands, -, hgate⟩ := h.gate
  cases hgate with
  | closed hready _ _ hidle => exact .inl ⟨hready, hidle⟩
  | taken hready _ _ hidle => exact .inl ⟨hready, hidle⟩
  | @firing i c cs left returned after hready hopener hplace hread hcs hi hfired =>
    obtain ⟨before, j, y₁, rfl, hrun, hreads, hidle⟩ := hread
    have hcalling : c.calling <+: left := calling_prefix (hplace.1 ▸ hstands i c hi)
    refine .inr ⟨before, j, cs, after, y₁, _, _, rfl, hidle, hrun, hreads, hfired,
      List.prefix_append _ _, ?_, fun hopen => by simp [hready] at hopen⟩
    rw [← hcs]
    exact (List.prefix_append_right_inj returned).2 hcalling
  | opened hready _ hread hfired =>
    obtain ⟨before, j, y₁, rfl, hrun, hreads, hidle⟩ := hread
    exact .inr ⟨before, j, _, _, y₁, _, _, rfl, hidle, hrun, hreads, hfired, List.prefix_rfl,
      List.prefix_rfl, fun _ => ⟨rfl, rfl⟩⟩

/-- A registry with one callback, for `onReady`. -/
def oneCallback : Registry ℕ where
  __ := Registry.new (C := ℕ) .host .reject
  callbacks := ⟨[(.onReady, ⟨[7]⟩)]⟩

/-- The callback fails while another client waits, which then finds the gate open. -/
theorem ready_once_waiting : ∃ (log : List (Moment ℕ)) (y : Shared ℕ),
    Run toString (new .callbacksFirst oneCallback) log y ∧ y.lifecycle.ready = true ∧
    log.filterMap Moment.called? = [7] ∧ ∃ before i cs after,
      log = before ++ .ended i ⟨.callbacks .onReady, cs⟩ :: after ∧ Fired cs cs cs after := by
  let d : RunDescriptor := ⟨1, "", .sync⟩
  have h : Run toString (new .callbacksFirst oneCallback) [] _ := .refl
  replace h := h.step (.joins _ (.run .async "print hi") "" .sync)
  replace h := h.step (.visits _ .async d)
  replace h := h.step (.asks (i := 0) rfl rfl rfl)
  replace h := h.step (.asks (i := 1) rfl rfl rfl)
  replace h := h.step (.hears (i := 1) rfl rfl rfl (.takes rfl rfl))
  replace h := h.step (.asks (i := 1) rfl rfl rfl)
  replace h := h.step (.hears (i := 1) rfl rfl rfl (.callbacks .onReady))
  replace h := h.step (.asks (i := 1) rfl rfl rfl)
  replace h := h.step (.hears (i := 1) rfl rfl rfl (.invoke .onReady d 7 (.failed "no")))
  replace h := h.step (.asks (i := 1) rfl rfl rfl)
  replace h := h.step (.hears (i := 1) rfl rfl rfl (.notify _))
  replace h := h.step (.asks (i := 1) rfl rfl rfl)
  replace h := h.step (.hears (i := 1) rfl rfl rfl (.modify _))
  replace h := h.step (.hears (i := 0) rfl rfl rfl (.finds rfl))
  obtain ⟨hready, -⟩ | ⟨before, i, cs, after, -, called, returned, hlog, -, -, -, hfired, -, -,
    hopen⟩ := h.ready_once
  · cases hready
  · obtain ⟨hcalled, hreturned⟩ := hopen rfl
    rw [hcalled, hreturned] at hfired
    exact ⟨_, _, h, rfl, rfl, before, i, cs, after, hlog, hfired⟩

end Shared
end WorkerHost
