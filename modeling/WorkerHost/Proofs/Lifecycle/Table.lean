import Mathlib.Data.List.Destutter
import WorkerHost.Proofs.Counter
import WorkerHost.Proofs.Lifecycle.Run
import WorkerHost.Proofs.Lifecycle.Sharing

/-!
# The run table of a shared lifecycle

Clients that run something at the same time have entries of their own in the run table. An entry
follows its client's own steps only: `Client.state` computes it from them, with an empty table in
place of the shared one.

* `TablePlace.obeys_program`: every errand makes its entry after the gate, takes it through the
  states of a run, and gives it up where it ends, by whatever way it comes there;
* `Shared.Run.table`: the table holds the entries of all clients, and nothing else;
* `Shared.Run.states_separate` says what comes of it for each run, for their number, and for the
  table when all are over.
-/

namespace WorkerHost
variable {C : Type}

namespace Lifecycle

/-- A run is where it was last noted to be. -/
lemma runState?_enter (l : Lifecycle) (run : RunDescriptor) (s : RunState) :
    (l.enter run s).runState? run = some s := by
  simp [runState?, enter]

lemma mem_leave {l : Lifecycle} {run : RunDescriptor} {id : UInt64} {s : RunState} :
    (id, s) ∈ (l.leave run).runs ↔ id ≠ run.id ∧ (id, s) ∈ l.runs := by
  simp [leave, and_comm]

lemma mem_enter {l : Lifecycle} {run : RunDescriptor} {id : UInt64} {s t : RunState} :
    (id, t) ∈ (l.enter run s).runs ↔
      id = run.id ∧ t = s ∨ id ≠ run.id ∧ (id, t) ∈ l.runs := by
  simp [enter, and_comm]

lemma nodup_leave {l : Lifecycle} (h : (l.runs.map Prod.fst).Nodup) (run : RunDescriptor) :
    ((l.leave run).runs.map Prod.fst).Nodup :=
  h.sublist (List.filter_sublist.map _)

lemma nodup_enter {l : Lifecycle} (h : (l.runs.map Prod.fst).Nodup) (run : RunDescriptor)
    (s : RunState) : ((l.enter run s).runs.map Prod.fst).Nodup := by
  refine List.nodup_cons.2 ⟨?_, l.nodup_leave h run⟩
  simp

/-- A run is where its entry says, if there is at most one for each run. -/
lemma runState?_eq_some {l : Lifecycle} (h : (l.runs.map Prod.fst).Nodup) {run : RunDescriptor}
    {s : RunState} : l.runState? run = some s ↔ (run.id, s) ∈ l.runs := by
  constructor
  · intro hfound
    obtain ⟨⟨id, t⟩, hfind, rfl⟩ := Option.map_eq_some_iff.1 hfound
    have hid : id = run.id := by simpa using List.find?_some hfind
    exact hid ▸ List.mem_of_find?_eq_some hfind
  · intro hmem
    obtain ⟨e, hfind⟩ : ∃ e, l.runs.find? (·.1 == run.id) = some e :=
      Option.isSome_iff_exists.1 (List.find?_isSome.2 ⟨_, hmem, by simp⟩)
    have hid : e.1 = run.id := by simpa using List.find?_some hfind
    have heq := List.inj_on_of_nodup_map h (List.mem_of_find?_eq_some hfind) hmem hid
    simp [runState?, hfind, heq]

end Lifecycle

/-! ## One client -/

/-- How far a run has come. -/
inductive TablePlace where
  | waiting
  | noted (s : RunState)
  | gone
  deriving DecidableEq

namespace TablePlace

def state : TablePlace → Option RunState
  | noted s => some s
  | waiting | gone => none

/-- How a run gets on. Most questions change nothing about it, and when it is over it asks none. -/
inductive Goes (d : RunDescriptor) : TablePlace → StageExchange C → TablePlace → Prop
  | opens : Goes d waiting ⟨.modify fun l => { l with ready := true }, ()⟩ waiting
  | begins : Goes d waiting ⟨.modify (·.enter d .beforeRun), ()⟩ (noted .beforeRun)
  | executes : Goes d (noted .beforeRun) ⟨.modify (·.enter d .executing), ()⟩ (noted .executing)
  | finishes : Goes d (noted .executing) ⟨.modify (·.enter d .afterRun), ()⟩ (noted .afterRun)
  | fails : Goes d (noted .beforeRun) ⟨.modify (·.leave d), ()⟩ gone
  | ends : Goes d (noted .afterRun) ⟨.modify (·.leave d), ()⟩ gone
  | still {p : TablePlace} (hp : p ≠ gone) (q : StageAsk C) (hq : q.Still fun _ => True)
      (r : q.Answer) : Goes d p ⟨q, r⟩ p

/-- The rules of the run table. -/
def rules (d : RunDescriptor) : Rules TablePlace (StageAsk C) StageAsk.Answer where
  fits _ _ := True
  goes := Goes d

/-- What is asked at the gate: nothing that changes the table. -/
def AtGate (q : StageAsk C) : Prop :=
  q.Still (fun _ => True) ∨ q = .modify fun l => { l with ready := true }

variable {name : C → String} {d : RunDescriptor} {mode : RunMode}

lemma asks_ensureReadyAsync : ((Stage.asking name).ensureReadyAsync d).Asks AtGate := by
  refine .bind (.ask (.inl trivial)) fun l => ?_
  split
  · exact .bind ((Stage.Asking.asks_fire trivial).mono fun _ => .inl) fun _ => .ask (.inr rfl)
  · exact .pure _

lemma asks_stageGate : ((Stage.asking name).gate mode d).Asks AtGate := by
  cases mode with
  | async => exact asks_ensureReadyAsync
  | sync =>
    refine .bind (.ask (.inl trivial)) fun ready => ?_
    split
    · exact .pure _
    · exact asks_ensureReadyAsync

lemma asks_gate (name : C → String) (d : RunDescriptor) :
    ∀ errand : Errand, (errand.gate name d).Asks AtGate
  | .drive _ => .bind asks_ensureReadyAsync fun _ => asks_stageGate
  | .ready _ | .run .. | .phases .. => asks_stageGate

lemma goes_atGate (q : StageAsk C) (hq : AtGate q) (r : q.Answer) :
    Goes d waiting ⟨q, r⟩ waiting := by
  obtain hq | rfl := hq
  · exact .still (by simp) q hq r
  · exact .opens

lemma goes_still {p : TablePlace} (hp : p ≠ gone) (q : StageAsk C) (hq : q.Still fun _ => True)
    (r : q.Answer) : Goes d p ⟨q, r⟩ p :=
  .still hp q hq r

/-- A note in the table, and what follows it. -/
lemma obeys_modify {α : Type} {f : Lifecycle → Lifecycle} {p p' : TablePlace}
    (hgoes : Goes d p (⟨.modify f, ()⟩ : StageExchange C) p') {rest : Unit → StageTask C α}
    {post : TablePlace → α → Prop} (hrest : (rest ()).Obeys (rules d) post p') :
    ((Stage.asking name).modify f >>= rest).Obeys (rules d) post p :=
  .ask_bind fun _ _ => ⟨p', hgoes, hrest⟩

/-- Where a run is before its code: at an end, if the code of the phase failed. -/
def BeforeRun : TablePlace → Except RunError Unit → Prop
  | p, .ok () => p = noted .executing
  | p, .error _ => p = gone

lemma obeys_beforeRun :
    ((Stage.asking name).beforeRun mode d).Obeys (rules d) BeforeRun waiting := by
  rw [Stage.beforeRun_eq]
  refine .still_bind asks_stageGate goes_atGate fun _ => obeys_modify .begins ?_
  refine .still_bind (Stage.Asking.asks_executeCode trivial) (goes_still (by simp)) ?_
  rintro (e | u)
  · exact obeys_modify .fails (.pure rfl)
  · refine .still_bind (Stage.Asking.asks_fire trivial) (goes_still (by simp)) fun _ => ?_
    exact obeys_modify .executes (.pure rfl)

lemma obeys_afterRun (outcome : Except RunError Value) : ((Stage.asking name).afterRun mode d
    outcome).Obeys (rules d) (fun p _ => p = gone) (noted .executing) := by
  rw [Stage.afterRun_eq]
  refine obeys_modify .finishes ?_
  refine .still_bind (Stage.Asking.asks_afterPhases trivial trivial) (goes_still (by simp))
    fun _ => ?_
  exact obeys_modify .ends (.pure rfl)

lemma obeys_around {body : StageTask C (Except RunError Value)}
    (hbody : body.Asks (StageAsk.Still fun _ => True)) : ((Stage.asking name).around mode d
    body).Obeys (rules d) (fun p _ => p = gone) waiting := by
  rw [Stage.around_eq]
  refine .bind obeys_beforeRun ?_
  rintro p (e | u) hp
  · exact .pure hp
  · obtain rfl : p = noted .executing := hp
    refine .still_bind hbody (goes_still (by simp)) fun outcome => ?_
    refine .still_bind (Stage.Asking.asks_reportFailure outcome) (goes_still (by simp)) fun _ => ?_
    exact obeys_afterRun outcome

end TablePlace

/-- Where a client ends: a run is over, and one that only passes the gate has no run. -/
def Errand.last : Errand → TablePlace
  | ready _ => .waiting
  | run .. | drive _ | phases .. => .gone

lemma Errand.state_last (errand : Errand) : errand.last.state = none := by
  cases errand <;> rfl

namespace TablePlace

/-- Every errand takes its entry through the states of a run. -/
theorem obeys_program (name : C → String) (d : RunDescriptor) (errand : Errand) :
    (errand.program name d).Obeys (rules d) (fun p _ => p = errand.last) waiting := by
  cases errand with
  | ready mode => exact asks_stageGate.obeys goes_atGate
  | run mode code =>
    have hrun : ((Stage.asking name).run mode d code).Obeys (rules d) (fun p _ => p = gone)
        waiting := by
      rw [Stage.run_eq]
      exact obeys_around (Stage.Asking.asks_executeUser code)
    exact .bind hrun fun p _ hp => .pure hp
  | drive mode =>
    refine .still_bind asks_ensureReadyAsync goes_atGate fun _ => ?_
    exact .bind (obeys_around (.ask trivial)) fun p _ hp => .pure hp
  | phases before after =>
    refine .bind obeys_beforeRun ?_
    rintro p (e | u) hp
    · exact .pure hp
    · obtain rfl : p = noted .executing := hp
      refine .still_bind (.ask trivial) (goes_still (by simp)) fun outcome => ?_
      exact .bind (obeys_afterRun outcome) fun p _ hp => .pure hp

/-! ### States -/

variable {p p' : TablePlace} {e : StageExchange C} {es : List (StageExchange C)}

lemma change_of_still {q : StageAsk C} {kind : Phase → Prop} (hq : q.Still kind) (r : q.Answer)
    (l : Lifecycle) : StageExchange.change ⟨q, r⟩ l = l := by
  cases q with
  | modify f => exact hq.elim
  | _ => rfl

/-- Whatever the lifecycle is, an exchange leaves the runs alone. -/
def ChangesNothing (e : StageExchange C) : Prop :=
  ∀ l, (e.change l).runs = l.runs ∧ (e.change l).nextRun = l.nextRun

lemma changesNothing_atGate {q : StageAsk C} (hq : AtGate q) (r : q.Answer) :
    ChangesNothing ⟨q, r⟩ := by
  intro l
  obtain hq | rfl := hq
  · rw [change_of_still hq]
    exact ⟨rfl, rfl⟩
  · exact ⟨rfl, rfl⟩

/-- A run changes no entry but its own. -/
lemma Goes.change_cases (h : Goes d p e p') : ChangesNothing e ∨
    (∃ s, ∀ l, e.change l = l.enter d s) ∨ ∀ l, e.change l = l.leave d := by
  cases h with
  | opens => exact .inl fun _ => ⟨rfl, rfl⟩
  | begins | executes | finishes => exact .inr (.inl ⟨_, fun _ => rfl⟩)
  | fails | ends => exact .inr (.inr fun _ => rfl)
  | still hp q hq r =>
    refine .inl fun l => ?_
    rw [change_of_still hq]
    exact ⟨rfl, rfl⟩

/-- The entry of a run says how far it has come. -/
lemma Goes.state_eq (h : Goes d p e p') {l : Lifecycle} (hl : l.runState? d = p.state) :
    (e.change l).runState? d = p'.state := by
  cases h with
  | opens => exact hl
  | begins | executes | finishes => exact l.runState?_enter d _
  | fails | ends => exact l.runState?_leave d
  | still hp q hq r => rwa [change_of_still hq]

lemma state_eq_of_path (h : (rules d).Path p es p') {l : Lifecycle} (hl : l.runState? d = p.state) :
    (es.foldl (fun l e => e.change l) l).runState? d = p'.state := by
  induction h generalizing l with
  | refl p => exact hl
  | cons hfirst _ ih => exact ih (Goes.state_eq hfirst hl)

/-- The states that a run goes through from a place on. -/
def courses : TablePlace → List (List (Option RunState))
  | waiting => [[none, some .beforeRun, some .executing, some .afterRun, none],
    [none, some .beforeRun, none]]
  | noted .beforeRun => [[some .beforeRun, some .executing, some .afterRun, none],
    [some .beforeRun, none]]
  | noted .executing => [[some .executing, some .afterRun, none]]
  | noted .afterRun => [[some .afterRun, none]]
  | gone => [[none]]

lemma Goes.courses (h : Goes d p e p') : p' = p ∧ p'.state = p.state ∨
    p.state ≠ p'.state ∧ ∀ course ∈ p'.courses, p.state :: course ∈ p.courses := by
  cases h with
  | opens | still => exact .inl ⟨rfl, rfl⟩
  | begins | executes | finishes | fails | ends => exact .inr (by decide)

/-- The entry of a run along its exchanges. -/
def entries (d : RunDescriptor) : Lifecycle → List (StageExchange C) → List (Option RunState)
  | l, [] => [l.runState? d]
  | l, e :: es => l.runState? d :: entries d (e.change l) es

lemma exists_entries (d : RunDescriptor) (l : Lifecycle) (es : List (StageExchange C)) :
    ∃ tail, entries d l es = l.runState? d :: tail := by
  cases es <;> exact ⟨_, rfl⟩

/-- The entries of a run, without repetitions, are the beginning of a course. -/
lemma entries_prefix (h : (rules d).Path p es p') {l : Lifecycle} (hl : l.runState? d = p.state) :
    ∃ course ∈ p.courses, (entries d l es).destutter (· ≠ ·) <+: course := by
  induction h generalizing l with
  | refl p =>
    have hnil : ∃ course ∈ p.courses, [p.state] <+: course := by
      cases p with
      | noted s => cases s <;> decide
      | waiting | gone => decide
    simpa [entries, hl] using hnil
  | @cons p p₁ p₂ e es hfirst hrest ih =>
    have hl' := Goes.state_eq hfirst hl
    obtain ⟨course, hcourse, hprefix⟩ := ih hl'
    obtain ⟨tail, htail⟩ := exists_entries d (StageExchange.change e l) es
    rw [htail, hl'] at hprefix
    rw [entries, htail, hl, hl', List.destutter_cons_cons]
    obtain ⟨rfl, hstate⟩ | ⟨hne, hcourses⟩ := Goes.courses hfirst
    · rw [if_neg (by simp)]
      exact ⟨course, hcourse, hprefix⟩
    · rw [if_pos hne]
      exact ⟨_, hcourses course hcourse, (List.prefix_cons_inj _).2 hprefix⟩

/-- A run does not wait again. -/
lemma ne_waiting_of_path (h : (rules d).Path p es p') (hp : p ≠ waiting) : p' ≠ waiting := by
  induction h with
  | refl p => exact hp
  | cons hfirst _ ih =>
    refine ih ?_
    cases hfirst with
    | still _ _ _ _ => exact hp
    | opens => exact absurd rfl hp
    | _ => simp

/-- A run that is over asks nothing. -/
lemma done_of_obeys {x : StageStep C Unit} {post : TablePlace → Unit → Prop}
    (h : x.Obeys (rules d) post gone) : ∃ s, x = .done () s := by
  cases x with
  | done u s => exact ⟨s, rfl⟩
  | ask q s resume =>
    obtain ⟨r⟩ := q.nonempty_answer
    obtain ⟨p', hgoes, -⟩ := h r trivial
    cases hgoes with
    | still hp => exact absurd rfl hp

end TablePlace

namespace Client
variable {name : C → String} {c : Client C}

/-- The lifecycle that the client would work on alone. -/
def own (c : Client C) : Lifecycle :=
  c.heard.foldl (fun l e => e.change l) (.new .callbacksFirst)

/-- Where the run of a client is, by its own steps. -/
def state (c : Client C) : Option RunState :=
  c.own.runState? c.run

/-- Where it has been, in turn. -/
def states (c : Client C) : List (Option RunState) :=
  (TablePlace.entries c.run (.new .callbacksFirst) c.heard).destutter (· ≠ ·)

/-- The client has passed the gate that its run begins with. -/
def Passed (name : C → String) (c : Client C) : Prop :=
  ∃ first rest, c.heard = first ++ rest ∧
    (c.errand.gate name c.run ()).After first (.done () ())

/-- Nothing is left to do: the phases before the run failed, or those after it are finished. -/
def Over (c : Client C) : Prop :=
  ∃ s, c.rest = .done () s

/-- The run has passed the gate, and has neither failed in the phases before it nor finished those
after it. -/
def UnderWay (name : C → String) (c : Client C) : Prop :=
  c.errand.Runs ∧ c.Passed name ∧ ¬ c.Over

/-- The client is at a point where it may have to wait: it is not about to change the lifecycle. -/
def Rests (c : Client C) : Prop :=
  ∀ f s resume, c.rest ≠ .ask (.modify f) s resume

/-- Up to the gate a run has no entry. -/
lemma state_of_gate {y : StageStep C Unit}
    (h : (c.errand.gate name c.run ()).After c.heard y) : c.state = none := by
  obtain ⟨hheard, -⟩ := (TablePlace.asks_gate name c.run c.errand ()).of_after h
  have hruns (l : Lifecycle) (es : List (StageExchange C)) (hes : ∀ e ∈ es, TablePlace.AtGate e.1) :
      (es.foldl (fun l e => e.change l) l).runs = l.runs := by
    induction es generalizing l with
    | nil => rfl
    | cons e es ih =>
      rw [List.foldl_cons, ih _ fun e he => hes e (List.mem_cons_of_mem _ he)]
      exact (TablePlace.changesNothing_atGate (hes e List.mem_cons_self) e.2 l).1
  simp [state, own, Lifecycle.runState?, hruns _ _ hheard, Lifecycle.new]

section
variable (hafter : (c.errand.program name c.run ()).After c.heard c.rest)
include hafter

/-- A client is at a place, its entry says at which, and the rest of it keeps to the rules. -/
lemma exists_place : ∃ p, (TablePlace.rules c.run).Path .waiting c.heard p ∧
    c.rest.Obeys (TablePlace.rules c.run) (fun p _ => p = c.errand.last) p ∧ c.state = p.state := by
  obtain ⟨p, hpath, hrest⟩ :=
    (TablePlace.obeys_program name c.run c.errand ()).after (fun _ _ => trivial) hafter
  exact ⟨p, hpath, hrest, TablePlace.state_eq_of_path hpath rfl⟩

lemma states_prefix : c.states <+: [none, some .beforeRun, some .executing, some .afterRun, none] ∨
    c.states <+: [none, some .beforeRun, none] := by
  obtain ⟨p, hpath, -, -⟩ := exists_place hafter
  obtain ⟨course, hcourse, hprefix⟩ :=
    TablePlace.entries_prefix (l := .new .callbacksFirst) hpath rfl
  simp only [TablePlace.courses, List.mem_cons, List.not_mem_nil, or_false] at hcourse
  obtain rfl | rfl := hcourse
  · exact .inl hprefix
  · exact .inr hprefix

/-- Who only passes the gate has no entry and changes none; a run changes no entry but its own. -/
lemma change_cases {q : StageAsk C} {s : Unit} {resume : q.Answer → Unit → StageStep C Unit}
    (hrest : c.rest = .ask q s resume) (r : q.Answer) :
    TablePlace.ChangesNothing ⟨q, r⟩ ∨ c.errand.Runs ∧
    ((∃ s, ∀ l, StageExchange.change ⟨q, r⟩ l = l.enter c.run s) ∨
      ∀ l, StageExchange.change ⟨q, r⟩ l = l.leave c.run) := by
  by_cases hready : ∃ mode, c.errand = .ready mode
  · obtain ⟨mode, herrand⟩ := hready
    have hgate := TablePlace.asks_gate name c.run c.errand ()
    have hprogram : c.errand.gate name c.run = c.errand.program name c.run := by
      rw [herrand]
      rfl
    rw [hprogram] at hgate
    obtain ⟨-, hasks⟩ := hgate.of_after hafter
    rw [hrest] at hasks
    exact .inl (TablePlace.changesNothing_atGate hasks.1 r)
  · obtain ⟨p, -, hobeys, -⟩ := exists_place hafter
    rw [hrest] at hobeys
    obtain ⟨p', hgoes, -⟩ := hobeys r trivial
    exact (TablePlace.Goes.change_cases hgoes).imp_right fun h =>
      ⟨fun mode herrand => hready ⟨mode, herrand⟩, h⟩

/-- An entry is that of a run under way. -/
lemma underWay_of_state (hruns : c.errand.Runs) (hstate : c.state ≠ none) :
    c.UnderWay name := by
  refine ⟨hruns, ?_, ?_⟩
  · obtain ⟨rest, hprogram⟩ := Errand.program_eq name c.run hruns
    rw [hprogram] at hafter
    obtain ⟨y, hy⟩ | ⟨first, later, u, hheard, hfirst, -⟩ := Step.After.of_bind hafter
    · exact absurd (state_of_gate hy) hstate
    · exact ⟨first, later, hheard, hfirst⟩
  · rintro ⟨s, hgone⟩
    obtain ⟨p, -, hrest, hp⟩ := exists_place hafter
    rw [hgone] at hrest
    obtain rfl : p = c.errand.last := hrest
    exact hstate (hp.trans c.errand.state_last)

/-- A run under way has an entry, unless it is just about to make its first one. -/
lemma state_of_underWay (hunder : c.UnderWay name) (hrests : c.Rests) : c.state ≠ none := by
  obtain ⟨herrand, ⟨first, later, hheard, hfirst⟩, hgone⟩ := hunder
  obtain ⟨p, hpath, hrest, hp⟩ := exists_place hafter
  obtain ⟨rest, hprogram⟩ := Errand.program_eq name c.run herrand
  rw [hprogram, hheard] at hafter
  -- after the gate the run is about to make its first entry, and it has gone on from there
  obtain ⟨x, hx, hlater⟩ := hafter.split
  obtain rfl := hx.unique (hfirst.bind _)
  change Step.After (.ask (.modify (·.enter c.run .beforeRun)) () _) later c.rest at hlater
  obtain ⟨y, hy⟩ : ∃ y, c.rest = y := ⟨_, rfl⟩
  rw [hy] at hlater
  cases hlater with
  | refl => exact absurd hy (hrests _ _ _)
  | cons _ =>
    rw [hheard] at hpath
    obtain ⟨p₀, hbefore, hentered⟩ := hpath.of_append
    cases hentered with
    | @cons _ p₁ _ _ _ hgoes hpath =>
      have hstate := TablePlace.Goes.state_eq hgoes (TablePlace.state_eq_of_path hbefore
        (l := .new .callbacksFirst) rfl)
      have hnoted : p₁.state = some .beforeRun :=
        hstate.symm.trans (Lifecycle.runState?_enter _ c.run .beforeRun)
      have hp₁ : p₁ ≠ .waiting := by
        rintro rfl
        cases hnoted
      have hwaiting := TablePlace.ne_waiting_of_path hpath hp₁
      rw [hp]
      cases p with
      | waiting => exact absurd rfl hwaiting
      | noted s => simp [TablePlace.state]
      | gone => exact absurd (TablePlace.done_of_obeys hrest) hgone

/-- Who only passes the gate has no entry. -/
lemma runs_of_state (hstate : c.state ≠ none) : c.errand.Runs := by
  intro mode herrand
  have hprogram : c.errand.program name c.run = c.errand.gate name c.run := by
    rw [herrand]
    rfl
  rw [hprogram] at hafter
  exact hstate (state_of_gate hafter)

end
end Client

/-! ## All clients -/

namespace Shared
variable {name : C → String} {start y y' : Shared C} {log ms : List (Moment C)} {i : ℕ}
  {c : Client C}

/-- The table holds the entries of the clients, and these have descriptors of their own. -/
structure Table (y : Shared C) : Prop where
  distinct : ∀ (i j : ℕ) (c d : Client C), y.clients[i]? = some c → y.clients[j]? = some d →
    c.errand.Runs → d.errand.Runs → c.run.id = d.run.id → i = j
  issued : ∀ (i : ℕ) (c : Client C), y.clients[i]? = some c → c.errand.Runs →
    ∃ k < y.issued, c.run.id = counterAt k
  next : y.lifecycle.nextRun = counterAt y.issued
  keys : (y.lifecycle.runs.map Prod.fst).Nodup
  entries : ∀ id s, (id, s) ∈ y.lifecycle.runs ↔
    ∃ (i : ℕ) (c : Client C), y.clients[i]? = some c ∧ c.run.id = id ∧ c.state = some s

namespace Table

lemma new (order : AfterRunOrder) (registry : Registry C) : Table (new order registry) where
  distinct := by simp [Shared.new]
  issued := by simp [Shared.new]
  next := rfl
  keys := List.nodup_nil
  entries := by simp [Shared.new, Lifecycle.new]

/-- A descriptor that has been given out is not the next one. -/
lemma ne_next (h : Table y) {issued : ℕ} {run : UInt64} (hi : y.clients[i]? = some c)
    (hruns : c.errand.Runs)
    (hnew : y.issued < issued ∧ run = counterAt y.issued ∧ issued ≤ 2 ^ 64) :
    c.run.id ≠ counterAt y.issued := by
  obtain ⟨k, hk, hid⟩ := h.issued i c hi hruns
  rw [hid]
  exact counterAt_ne hk (by omega)

/-- Who joins has no entry yet. -/
lemma joins (h : Table y) (hstate : c.state = none) {l : Lifecycle} {issued : ℕ}
    (hruns : l.runs = y.lifecycle.runs) (hissued : y.issued ≤ issued)
    (hnext : l.nextRun = counterAt issued)
    (hfresh : c.errand.Runs →
      y.issued < issued ∧ c.run.id = counterAt y.issued ∧ issued ≤ 2 ^ 64) :
    Table { y with lifecycle := l, clients := y.clients ++ [c], issued := issued } where
  distinct j k d e hd he hd' he' heq := by
    obtain hd | ⟨rfl, rfl⟩ := getElem?_joined.1 hd <;>
      obtain he | ⟨rfl, rfl⟩ := getElem?_joined.1 he
    · exact h.distinct j k d e hd he hd' he' heq
    · exact absurd (heq.trans (hfresh he').2.1) (h.ne_next hd hd' (hfresh he'))
    · exact absurd (heq.symm.trans (hfresh hd').2.1) (h.ne_next he he' (hfresh hd'))
    · rfl
  issued j d hd hd' := by
    obtain hd | ⟨rfl, rfl⟩ := getElem?_joined.1 hd
    · obtain ⟨k, hk, hid⟩ := h.issued j d hd hd'
      exact ⟨k, hk.trans_le hissued, hid⟩
    · exact ⟨y.issued, (hfresh hd').1, (hfresh hd').2.1⟩
  next := hnext
  keys := hruns ▸ h.keys
  entries id s := by
    show (id, s) ∈ l.runs ↔ _
    rw [hruns, h.entries]
    constructor
    · rintro ⟨j, d, hd, hid, hs⟩
      exact ⟨j, d, getElem?_joined.2 (.inl hd), hid, hs⟩
    · rintro ⟨j, d, hd, hid, hs⟩
      obtain hd | ⟨-, rfl⟩ := getElem?_joined.1 hd
      · exact ⟨j, d, hd, hid, hs⟩
      · rw [hstate] at hs
        cases hs

/-- A client goes on, and of all entries only its own changes. -/
lemma moves (h : Table y) (hi : y.clients[i]? = some c) (c' : Client C)
    (herrand : c'.errand = c.errand) (hrun : c'.run = c.run) {l : Lifecycle} (opener : Option ℕ)
    (hnext : l.nextRun = y.lifecycle.nextRun) (hkeys : (l.runs.map Prod.fst).Nodup)
    (hentries : ∀ id s, (id, s) ∈ l.runs ↔ c.run.id = id ∧ c'.state = some s ∨
      ∃ (j : ℕ) (d : Client C), j ≠ i ∧ y.clients[j]? = some d ∧ d.run.id = id ∧ d.state = some s) :
    Table { y with lifecycle := l, opener := opener, clients := y.clients.set i c' } where
  distinct j k d e hd he hd' he' heq := by
    have hlt := (List.getElem?_eq_some_iff.1 hi).1
    obtain ⟨rfl, rfl⟩ | ⟨hj, hjd⟩ := (getElem?_moved hlt).1 hd <;>
      obtain ⟨rfl, rfl⟩ | ⟨hk, hke⟩ := (getElem?_moved hlt).1 he
    · rfl
    · exact h.distinct j k c e hi hke (herrand ▸ hd') he' (hrun ▸ heq)
    · exact h.distinct j k d c hjd hi hd' (herrand ▸ he') (heq.trans (by rw [hrun]))
    · exact h.distinct j k d e hjd hke hd' he' heq
  issued j d hd hd' := by
    obtain ⟨rfl, rfl⟩ | ⟨hj, hd⟩ := (getElem?_moved (List.getElem?_eq_some_iff.1 hi).1).1 hd
    · rw [hrun]
      exact h.issued j c hi (herrand ▸ hd')
    · exact h.issued j d hd hd'
  next := hnext.trans h.next
  keys := hkeys
  entries id s := by
    have hlt := (List.getElem?_eq_some_iff.1 hi).1
    refine (hentries id s).trans ⟨?_, ?_⟩
    · rintro (⟨hid, hs⟩ | ⟨j, d, hj, hd, hid, hs⟩)
      · exact ⟨i, c', (getElem?_moved hlt).2 (.inl ⟨rfl, rfl⟩), by rw [hrun, hid], hs⟩
      · exact ⟨j, d, (getElem?_moved hlt).2 (.inr ⟨hj, hd⟩), hid, hs⟩
    · rintro ⟨j, d, hd, hid, hs⟩
      obtain ⟨rfl, rfl⟩ | ⟨hj, hd⟩ := (getElem?_moved hlt).1 hd
      · exact .inl ⟨by rw [← hrun, hid], hs⟩
      · exact .inr ⟨j, d, hj, hd, hid, hs⟩

/-- The entries of the others are those that a client has not made. -/
lemma entries_split (h : Table y) (hi : y.clients[i]? = some c) (id : UInt64) (s : RunState) :
    (id, s) ∈ y.lifecycle.runs ↔ c.run.id = id ∧ c.state = some s ∨
      ∃ (j : ℕ) (d : Client C),
        j ≠ i ∧ y.clients[j]? = some d ∧ d.run.id = id ∧ d.state = some s := by
  rw [h.entries]
  constructor
  · rintro ⟨j, d, hd, hid, hs⟩
    by_cases hj : j = i
    · subst hj
      obtain rfl := Option.some.inj (hi.symm.trans hd)
      exact .inl ⟨hid, hs⟩
    · exact .inr ⟨j, d, hj, hd, hid, hs⟩
  · rintro (⟨hid, hs⟩ | ⟨j, d, -, hd, hid, hs⟩)
    · exact ⟨i, c, hi, hid, hs⟩
    · exact ⟨j, d, hd, hid, hs⟩

/-- A client goes on without a change to the table. -/
lemma goes_on (h : Table y) (hi : y.clients[i]? = some c) (c' : Client C)
    (herrand : c'.errand = c.errand) (hrun : c'.run = c.run) (hstate : c'.state = c.state)
    {l : Lifecycle} (opener : Option ℕ) (hnext : l.nextRun = y.lifecycle.nextRun)
    (hruns : l.runs = y.lifecycle.runs) :
    Table { y with lifecycle := l, opener := opener, clients := y.clients.set i c' } := by
  refine h.moves hi c' herrand hrun opener hnext (hruns ▸ h.keys) fun id s => ?_
  rw [hruns, hstate]
  exact h.entries_split hi id s

/-- Entries of other runs are those of other clients. -/
lemma entries_of_ne (h : Table y) (hafter : ∀ c ∈ y.clients,
      (c.errand.program name c.run ()).After c.heard c.rest) (hi : y.clients[i]? = some c)
    (hruns : c.errand.Runs) (id : UInt64) (s : RunState) :
    id ≠ c.run.id ∧ (id, s) ∈ y.lifecycle.runs ↔
      ∃ (j : ℕ) (d : Client C), j ≠ i ∧ y.clients[j]? = some d ∧ d.run.id = id ∧
        d.state = some s := by
  rw [h.entries_split hi]
  constructor
  · rintro ⟨hid, ⟨heq, -⟩ | hothers⟩
    · exact absurd heq.symm hid
    · exact hothers
  · rintro ⟨j, d, hj, hd, rfl, hs⟩
    refine ⟨fun heq => hj ?_, .inr ⟨j, d, hj, hd, rfl, hs⟩⟩
    have hdafter := hafter d (List.mem_of_getElem? hd)
    exact h.distinct j i d c hd hi (Client.runs_of_state hdafter (by simp [hs])) hruns heq

/-- A client gets an answer, and the lifecycle changes as it says. -/
lemma hears (h : Table y) (hafter : ∀ c ∈ y.clients,
      (c.errand.program name c.run ()).After c.heard c.rest) (hi : y.clients[i]? = some c)
    {q : StageAsk C} {s : Unit} {r : q.Answer} {resume : q.Answer → Unit → StageStep C Unit}
    (hrest : c.rest = .ask q s resume) (opener : Option ℕ) : Table { y with
      lifecycle := StageExchange.change ⟨q, r⟩ y.lifecycle
      opener := opener
      clients := y.clients.set i
        { c with heard := c.heard ++ [⟨q, r⟩], rest := resume r (), asked := false } } := by
  set c' : Client C :=
    { c with heard := c.heard ++ [⟨q, r⟩], rest := resume r (), asked := false } with hc'
  have hown : c'.own = StageExchange.change ⟨q, r⟩ c.own := by simp [Client.own, hc']
  obtain hnothing | ⟨herrand, ⟨s, henter⟩ | hleave⟩ :=
    Client.change_cases (hafter c (List.mem_of_getElem? hi)) hrest r
  · refine h.goes_on hi c' rfl rfl ?_ opener (hnothing _).2 (hnothing _).1
    show c'.own.runState? c.run = c.own.runState? c.run
    rw [hown, Lifecycle.runState?, (hnothing _).1]
    rfl
  · have hstate : c'.state = some s := by
      rw [Client.state, hown, henter]
      exact Lifecycle.runState?_enter _ _ s
    rw [henter]
    refine h.moves hi c' rfl rfl opener rfl (Lifecycle.nodup_enter h.keys _ _) fun id t => ?_
    rw [Lifecycle.mem_enter, h.entries_of_ne hafter hi herrand, hstate, Option.some_inj, eq_comm,
      eq_comm (a := t)]
  · have hstate : c'.state = none := by
      rw [Client.state, hown, hleave]
      exact Lifecycle.runState?_leave _ _
    rw [hleave]
    refine h.moves hi c' rfl rfl opener rfl (Lifecycle.nodup_leave h.keys _) fun id t => ?_
    rw [Lifecycle.mem_leave, h.entries_of_ne hafter hi herrand, hstate]
    simp

/-- A run is where its own entry says. -/
lemma runState?_eq (h : Table y) (hafter : ∀ c ∈ y.clients,
      (c.errand.program name c.run ()).After c.heard c.rest) (hc : c ∈ y.clients)
    (hruns : c.errand.Runs) : y.lifecycle.runState? c.run = c.state := by
  obtain ⟨i, hi⟩ := List.getElem?_of_mem hc
  refine Option.ext fun s => ?_
  rw [Lifecycle.runState?_eq_some h.keys, h.entries]
  constructor
  · rintro ⟨j, d, hd, hid, hs⟩
    have hdafter := hafter d (List.mem_of_getElem? hd)
    have hready := Client.runs_of_state hdafter (by simp [hs])
    have hj := h.distinct j i d c hd hi hready hruns hid
    subst hj
    obtain rfl := Option.some.inj (hi.symm.trans hd)
    exact hs
  · exact fun hs => ⟨i, c, hi, rfl, hs⟩

/-- There is one entry for every client that has one. -/
lemma activeRuns_eq (h : Table y) (hafter : ∀ c ∈ y.clients,
      (c.errand.program name c.run ()).After c.heard c.rest) :
    y.lifecycle.activeRuns = y.clients.countP (·.state.isSome) := by
  have hpairs : y.clients.Pairwise fun c d => c.state.isSome → d.state.isSome →
      c.run.id ≠ d.run.id := by
    refine List.pairwise_iff_getElem.2 fun i j hi hj hij hc hd heq => ?_
    have hready {k : ℕ} (hk : k < y.clients.length) (hs : y.clients[k].state.isSome) :
        y.clients[k].errand.Runs :=
      Client.runs_of_state (hafter _ (List.getElem_mem hk)) (by
        rintro hnone
        simp [hnone] at hs)
    have := h.distinct i j _ _ (List.getElem?_eq_getElem hi) (List.getElem?_eq_getElem hj)
      (hready hi hc) (hready hj hd) heq
    omega
  have hnodup : ((y.clients.filter (·.state.isSome)).map (·.run.id)).Nodup := by
    refine List.pairwise_map.2 ((hpairs.filter _).imp_of_mem fun hc hd hne => ?_)
    exact hne (List.mem_filter.1 hc).2 (List.mem_filter.1 hd).2
  have hperm := (List.perm_ext_iff_of_nodup h.keys hnodup).2 fun id => by
    constructor
    · intro hid
      obtain ⟨⟨id, s⟩, hmem, rfl⟩ := List.mem_map.1 hid
      obtain ⟨j, d, hd, rfl, hs⟩ := (h.entries id s).1 hmem
      exact List.mem_map.2 ⟨d, List.mem_filter.2 ⟨List.mem_of_getElem? hd, by simp [hs]⟩, rfl⟩
    · intro hid
      obtain ⟨d, hd, rfl⟩ := List.mem_map.1 hid
      obtain ⟨hd, hs⟩ := List.mem_filter.1 hd
      obtain ⟨s, hs⟩ := Option.isSome_iff_exists.1 hs
      obtain ⟨j, hj⟩ := List.getElem?_of_mem hd
      exact List.mem_map.2 ⟨(d.run.id, s), (h.entries _ s).2 ⟨j, d, hj, rfl, hs⟩, rfl⟩
  have hlength := hperm.length_eq
  rwa [List.length_map, List.length_map, ← List.countP_eq_length_filter] at hlength

end Table

/-- Descriptors are only ever given out. -/
lemma Moves.issued_le (h : Moves name y ms y') : y.issued ≤ y'.issued := by
  cases h with
  | joins errand source mode => exact Nat.le_succ _
  | _ => exact Nat.le_refl _

/-- Whatever the clients do, the table holds their entries, as long as the numbers of the
descriptors have not come round. -/
theorem Run.table {order : AfterRunOrder} {registry : Registry C}
    (h : Run name (new order registry) log y) (hbound : y.issued ≤ 2 ^ 64) : Table y := by
  induction h with
  | refl => exact .new order registry
  | step hrun hmove ih =>
    replace ih := ih (hmove.issued_le.trans hbound)
    cases hmove with
    | joins errand source mode =>
      refine ih.joins rfl rfl (Nat.le_succ _) ?_ fun _ => ⟨Nat.lt_succ_self _, ih.next, hbound⟩
      rw [counterAt_succ, ← ih.next]
      rfl
    | visits mode d =>
      exact ih.joins rfl rfl (Nat.le_refl _) ih.next fun hruns => absurd rfl (hruns mode)
    | registers registry => exact ⟨ih.distinct, ih.issued, ih.next, ih.keys, ih.entries⟩
    | @asks _ c _ _ _ hi =>
      exact ih.goes_on hi { c with asked := true } rfl rfl rfl _ rfl rfl
    | hears hi hrest _ hanswer =>
      rw [hanswer.change]
      exact ih.hears (hrun.after rfl) hi hrest _

/-- A registry with code for the phase before a run in one mode. -/
def failingCode : Registry ℕ where
  __ := Registry.new (C := ℕ) .host .reject
  code := ⟨[(.codeBeforeRunAsync, ⟨["fail E x"]⟩)]⟩

/-- Any number of runs with descriptors of one lifecycle, as many as there are numbers of 64 bits,
in any order of their steps, whatever callbacks and code do. Where a run is follows from its own
steps, and it goes through the states in their order. As long as nobody is about to change the
lifecycle, there are as many active runs as have passed the gate and neither failed before their
code nor finished their phases after it. If there are none of these, the table is empty. -/
theorem Run.states_separate {order : AfterRunOrder} {registry : Registry C}
    [DecidablePred (Client.UnderWay (C := C) name)] (h : Run name (new order registry) log y)
    (hbound : y.issued ≤ 2 ^ 64) :
    (∀ c ∈ y.clients, c.errand.Runs → y.lifecycle.runState? c.run = c.state ∧
      (c.states <+: [none, some .beforeRun, some .executing, some .afterRun, none] ∨
        c.states <+: [none, some .beforeRun, none])) ∧
    ((∀ c ∈ y.clients, c.Rests) →
      y.lifecycle.activeRuns = y.clients.countP fun c => c.UnderWay name) ∧
    ((∀ c ∈ y.clients, ¬ c.UnderWay name) → y.lifecycle.runs = []) := by
  have hafter := h.after rfl
  have htable := h.table hbound
  refine ⟨fun c hc herrand => ⟨htable.runState?_eq hafter hc herrand, ?_⟩, fun hrests => ?_,
    fun hnone => ?_⟩
  · exact Client.states_prefix (hafter c hc)
  · rw [htable.activeRuns_eq hafter]
    refine List.countP_congr fun c hc => ?_
    rw [decide_eq_true_iff, Option.isSome_iff_ne_none]
    constructor
    · intro hs
      exact Client.underWay_of_state (hafter c hc) (Client.runs_of_state (hafter c hc) hs) hs
    · exact fun hunder => Client.state_of_underWay (hafter c hc) hunder (hrests c hc)
  · refine List.eq_nil_iff_forall_not_mem.2 ?_
    rintro ⟨id, s⟩ hmem
    obtain ⟨j, d, hd, -, hs⟩ := (htable.entries id s).1 hmem
    have hdmem := List.mem_of_getElem? hd
    have hstate : d.state ≠ none := by simp [hs]
    exact hnone d hdmem (Client.underWay_of_state (hafter d hdmem)
      (Client.runs_of_state (hafter d hdmem) hstate) hstate)

open Classical in
/-- Two runs overlap: one is executing, while the code of the phase before the other has failed and
is about to be complained about. -/
theorem states_separate_overlapping : ∃ (log : List (Moment ℕ)) (y : Shared ℕ),
    Run toString (new .codeFirst failingCode) log y ∧
    y.clients.map (fun c => y.lifecycle.runState? c.run) = [some .executing, some .beforeRun] ∧
    (y.clients.countP fun c => c.UnderWay toString) = 2 := by
  have h : Run toString (new .codeFirst failingCode) [] _ := .refl
  replace h := h.step (.joins _ (.run .sync "print hi") "" .sync)
  replace h := h.step (.joins _ (.drive .async) "" .async)
  replace h := h.step (.asks (i := 0) rfl rfl rfl)
  replace h := h.step (.hears (i := 0) rfl rfl rfl (.looks rfl))
  replace h := h.step (.asks (i := 0) rfl rfl rfl)
  replace h := h.step (.hears (i := 0) rfl rfl rfl (.takes rfl rfl))
  replace h := h.step (.asks (i := 0) rfl rfl rfl)
  replace h := h.step (.hears (i := 0) rfl rfl rfl (.callbacks .onReady))
  replace h := h.step (.asks (i := 0) rfl rfl rfl)
  replace h := h.step (.hears (i := 0) rfl rfl rfl (.modify _))
  replace h := h.step (.asks (i := 0) rfl rfl rfl)
  replace h := h.step (.hears (i := 0) rfl rfl rfl (.modify _))
  replace h := h.step (.asks (i := 0) rfl rfl rfl)
  replace h := h.step (.hears (i := 0) rfl rfl rfl (.code .codeBeforeRun))
  replace h := h.step (.asks (i := 0) rfl rfl rfl)
  replace h := h.step (.hears (i := 0) rfl rfl rfl (.callbacks .onBeforeRun))
  replace h := h.step (.asks (i := 0) rfl rfl rfl)
  replace h := h.step (.hears (i := 0) rfl rfl rfl (.modify _))
  replace h := h.step (.asks (i := 1) rfl rfl rfl)
  replace h := h.step (.hears (i := 1) rfl rfl rfl (.finds rfl))
  replace h := h.step (.asks (i := 1) rfl rfl rfl)
  replace h := h.step (.hears (i := 1) rfl rfl rfl (.finds rfl))
  replace h := h.step (.asks (i := 1) rfl rfl rfl)
  replace h := h.step (.hears (i := 1) rfl rfl rfl (.modify _))
  replace h := h.step (.asks (i := 1) rfl rfl rfl)
  replace h := h.step (.hears (i := 1) rfl rfl rfl (.code .codeBeforeRunAsync))
  replace h := h.step (.asks (i := 1) rfl rfl rfl)
  replace h := h.step (.hears (i := 1) rfl rfl rfl (.execute .async _ (some (.error ⟨"E", "x"⟩))))
  obtain ⟨-, hactive, -⟩ := h.states_separate (by decide)
  refine ⟨_, _, h, rfl, (hactive ?_).symm⟩
  intro c hc f s resume hrest
  obtain rfl | rfl := List.mem_pair.1 hc <;> cases hrest

end Shared
end WorkerHost
