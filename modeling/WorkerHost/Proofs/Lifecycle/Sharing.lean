import WorkerHost.Hooks.Registry
import WorkerHost.Proofs.Lifecycle.Asking

/-!
# Clients that share a lifecycle

Any number of clients work on one lifecycle at the same time: they pass its gate, run code, or have
its phases around something else. Each of them is a computation that asks, `Errand.program`, and
`Shared.Moves` lets one of them go on by one question or one answer at a time. Between any two of
its moves the others make theirs, the registry may change, and new clients join. Callbacks and code
take time, as their question and its answer are two moves, and end in any way.

The gate is a cell that is set once: the first client to find it closed takes it, and the others
wait until it is open.
-/

namespace WorkerHost
variable {C : Type}

/-- What a client does on a lifecycle. -/
inductive Errand where
  /-- passes the gate -/
  | ready (mode : RunMode)
  /-- runs code -/
  | run (mode : RunMode) (code : String)
  /-- passes the gate, and then has the phases around something else -/
  | drive (mode : RunMode)
  /-- the phases before a run, something else, and then the phases after a run unless the first
  failed, each in a mode of its own -/
  | phases (before after : RunMode)
  deriving DecidableEq

namespace Errand
variable (name : C → String) (d : RunDescriptor)

/-- The computation of an errand. -/
def program : Errand → StageTask C Unit
  | ready mode => (Stage.asking name).gate mode d
  | run mode code => do
    let _ ← (Stage.asking name).run mode d code
  | drive mode => do
    (Stage.asking name).ensureReadyAsync d
    let _ ← (Stage.asking name).around mode d (StageTask.ask .body)
  | phases before after => do
    match ← (Stage.asking name).beforeRun before d with
    | .error _ => return
    | .ok () => do
      let _ ← (Stage.asking name).afterRun after d (← StageTask.ask .body)

/-- The part of it that ends as the gate is passed before the phases. -/
def gate : Errand → StageTask C Unit
  | drive mode => do
    (Stage.asking name).ensureReadyAsync d
    (Stage.asking name).gate mode d
  | ready mode | run mode _ | phases mode _ => (Stage.asking name).gate mode d

/-- There is a run, and not only the gate. -/
def Runs (errand : Errand) : Prop :=
  ∀ mode, errand ≠ ready mode

/-- After the gate an errand begins by noting that its run is before its code. -/
lemma program_eq {errand : Errand} (h : errand.Runs) : ∃ rest : Unit → StageTask C Unit,
    errand.program name d = errand.gate name d >>= fun _ =>
      StageTask.ask (.modify (·.enter d .beforeRun)) >>= rest := by
  have hbefore (mode : RunMode) : ∃ rest, (Stage.asking name).beforeRun mode d =
      (Stage.asking name).gate mode d >>= fun _ =>
        StageTask.ask (.modify (·.enter d .beforeRun)) >>= rest := ⟨_, Stage.beforeRun_eq _ _ _⟩
  cases errand with
  | ready mode => exact absurd rfl (h mode)
  | run mode code =>
    obtain ⟨rest, hrest⟩ := hbefore mode
    simp only [program, gate, Stage.run_eq, Stage.around_eq, hrest, bind_assoc]
    exact ⟨_, rfl⟩
  | drive mode =>
    obtain ⟨rest, hrest⟩ := hbefore mode
    simp only [program, gate, Stage.around_eq, hrest, bind_assoc]
    exact ⟨_, rfl⟩
  | phases before after =>
    obtain ⟨rest, hrest⟩ := hbefore before
    simp only [program, gate, hrest, bind_assoc]
    exact ⟨_, rfl⟩

end Errand

/-- One of the clients. -/
structure Client (C : Type) where
  errand : Errand
  run : RunDescriptor
  /-- its exchanges so far -/
  heard : List (StageExchange C)
  /-- what is left of it -/
  rest : StageStep C Unit
  /-- whether it has put its question and waits for the answer -/
  asked : Bool

/-- A client that begins its errand. -/
def Client.new (name : C → String) (errand : Errand) (run : RunDescriptor) : Client C :=
  ⟨errand, run, [], errand.program name run (), false⟩

/-- What can be seen of the clients. -/
inductive Moment (C : Type) where
  | began (i : ℕ) (q : StageAsk C)
  | ended (i : ℕ) (e : StageExchange C)

/-- Whose moment it is. -/
def Moment.client : Moment C → ℕ
  | began i _ | ended i _ => i

/-- A lifecycle, the registry of its context, and those who work on it. -/
structure Shared (C : Type) where
  lifecycle : Lifecycle
  registry : Registry C
  /-- who has taken the gate -/
  opener : Option ℕ
  clients : List (Client C)
  /-- how many descriptors it has given out -/
  issued : ℕ

namespace Shared

/-- A lifecycle that nobody works on yet. -/
def new (order : AfterRunOrder) (registry : Registry C) : Shared C :=
  ⟨.new order, registry, none, [], 0⟩

/-- The answers that a client can get now, with the lifecycle and the holder of the gate after it.
Who comes to the gate while another one holds it has to wait, and anyone may look whether it is
open. -/
inductive Answers (y : Shared C) (i : ℕ) : StageExchange C → Lifecycle → Option ℕ → Prop
  | looks {ready : Bool} (hready : y.lifecycle.ready = ready) :
      Answers y i ⟨.isReady, ready⟩ y.lifecycle y.opener
  | finds (hready : y.lifecycle.ready = true) :
      Answers y i ⟨.get, y.lifecycle⟩ y.lifecycle y.opener
  | takes (hready : y.lifecycle.ready = false) (hfree : y.opener = none) :
      Answers y i ⟨.get, y.lifecycle⟩ y.lifecycle (some i)
  | modify (f : Lifecycle → Lifecycle) : Answers y i ⟨.modify f, ()⟩ (f y.lifecycle) y.opener
  | callbacks (phase : Phase) :
      Answers y i ⟨.callbacks phase, y.registry.callbacksOf phase⟩ y.lifecycle y.opener
  | code (phase : Phase) :
      Answers y i ⟨.code phase, y.registry.composed phase⟩ y.lifecycle y.opener
  | invoke (phase : Phase) (run : RunDescriptor) (c : C) (outcome : CallbackOutcome) :
      Answers y i ⟨.invoke phase run c, outcome⟩ y.lifecycle y.opener
  | execute (mode : RunMode) (code : String) (r : Option (Except InterpreterError Value)) :
      Answers y i ⟨.execute mode code, r⟩ y.lifecycle y.opener
  | notify (text : String) : Answers y i ⟨.notify text, ()⟩ y.lifecycle y.opener
  | body (outcome : Except RunError Value) : Answers y i ⟨.body, outcome⟩ y.lifecycle y.opener

variable (name : C → String)

/-- One move, and what can be seen of it. -/
inductive Moves : Shared C → List (Moment C) → Shared C → Prop
  /-- a client joins with a descriptor of the lifecycle -/
  | joins (y : Shared C) (errand : Errand) (source : String) (mode : RunMode) :
      Moves y [] { y with
        lifecycle := (y.lifecycle.descriptor source mode).2
        clients := y.clients ++ [.new name errand (y.lifecycle.descriptor source mode).1]
        issued := y.issued + 1 }
  /-- a client joins that only passes the gate, for whatever run -/
  | visits (y : Shared C) (mode : RunMode) (run : RunDescriptor) :
      Moves y [] { y with clients := y.clients ++ [.new name (.ready mode) run] }
  | registers (y : Shared C) (registry : Registry C) :
      Moves y [] { y with registry := registry }
  | asks {y : Shared C} {i : ℕ} {c : Client C} {q : StageAsk C} {s : Unit}
      {resume : q.Answer → Unit → StageStep C Unit} (hi : y.clients[i]? = some c)
      (hrest : c.rest = .ask q s resume) (hasked : c.asked = false) :
      Moves y [.began i q] { y with clients := y.clients.set i { c with asked := true } }
  | hears {y : Shared C} {i : ℕ} {c : Client C} {q : StageAsk C} {s : Unit} {r : q.Answer}
      {resume : q.Answer → Unit → StageStep C Unit} {l : Lifecycle} {opener : Option ℕ}
      (hi : y.clients[i]? = some c) (hrest : c.rest = .ask q s resume) (hasked : c.asked = true)
      (hanswer : y.Answers i ⟨q, r⟩ l opener) :
      Moves y [.ended i ⟨q, r⟩] { y with
        lifecycle := l
        opener := opener
        clients := y.clients.set i
          { c with heard := c.heard ++ [⟨q, r⟩], rest := resume r (), asked := false } }

/-- What can be seen of any number of moves. -/
inductive Run (start : Shared C) : List (Moment C) → Shared C → Prop
  | refl : Run start [] start
  | step {log ms : List (Moment C)} {y y' : Shared C} (hrun : Run start log y)
      (hmove : Moves name y ms y') : Run start (log ++ ms) y'

namespace Run
variable {name : C → String} {start y y' : Shared C} {log log' : List (Moment C)}

lemma trans (h : Run name start log y) (h' : Run name y log' y') :
    Run name start (log ++ log') y' := by
  induction h' with
  | refl => rwa [List.append_nil]
  | step _ hmove ih =>
    rw [← List.append_assoc]
    exact ih.step hmove

/-- A client puts its question, unless it has done so, and gets an answer. -/
lemma exchange {i : ℕ} {c : Client C} {q : StageAsk C} {s : Unit} {r : q.Answer}
    {resume : q.Answer → Unit → StageStep C Unit} {l : Lifecycle} {opener : Option ℕ}
    (hi : y.clients[i]? = some c) (hrest : c.rest = .ask q s resume)
    (hanswer : y.Answers i ⟨q, r⟩ l opener) :
    ∃ log y', Run name y log y' ∧ y'.lifecycle = l ∧
      y'.clients[i]? =
        some { c with heard := c.heard ++ [⟨q, r⟩], rest := resume r (), asked := false } ∧
      ∀ m ∈ log, m.client = i := by
  have hlt := (List.getElem?_eq_some_iff.1 hi).1
  cases hasked : c.asked with
  | true =>
    exact ⟨_, _, Run.refl.step (.hears hi hrest hasked hanswer), rfl, List.getElem?_set_self hlt,
      by simp [Moment.client]⟩
  | false =>
    have hset := List.getElem?_set_self (a := { c with asked := true }) hlt
    have hanswer' : Answers { y with clients := y.clients.set i { c with asked := true } } i ⟨q, r⟩
        l opener := by
      cases hanswer with
      | looks hready => exact .looks hready
      | finds hready => exact .finds hready
      | takes hready hfree => exact .takes hready hfree
      | modify f => exact .modify f
      | callbacks phase => exact .callbacks phase
      | code phase => exact .code phase
      | invoke phase run c outcome => exact .invoke phase run c outcome
      | execute mode code r => exact .execute mode code r
      | notify text => exact .notify text
      | body outcome => exact .body outcome
    have hrun : Run name y _ _ :=
      (Run.refl.step (.asks hi hrest hasked)).step (.hears hset hrest rfl hanswer')
    refine ⟨_, _, hrun, rfl, List.getElem?_set_self ?_, by simp [Moment.client]⟩
    rwa [List.length_set]

/-- What every client keeps as it goes on. -/
lemma each {J : Client C → Prop} (h : Run name start log y) (hstart : ∀ c ∈ start.clients, J c)
    (hnew : ∀ errand d, J (.new name errand d)) (hasks : ∀ c, J c → J { c with asked := true })
    (hhears : ∀ c q s (r : q.Answer) resume, J c → c.rest = .ask q s resume →
      J { c with heard := c.heard ++ [⟨q, r⟩], rest := resume r (), asked := false }) :
    ∀ c ∈ y.clients, J c := by
  have hset {y : Shared C} {i : ℕ} {c' : Client C} (ih : ∀ c ∈ y.clients, J c) (hc' : J c') :
      ∀ c ∈ y.clients.set i c', J c := fun c hc =>
    (List.mem_or_eq_of_mem_set hc).elim (ih c) fun heq => heq ▸ hc'
  have happend {y : Shared C} {c' : Client C} (ih : ∀ c ∈ y.clients, J c) (hc' : J c') :
      ∀ c ∈ y.clients ++ [c'], J c := fun c hc =>
    (List.mem_append.1 hc).elim (ih c) fun heq => List.mem_singleton.1 heq ▸ hc'
  induction h with
  | refl => exact hstart
  | step _ hmove ih =>
    cases hmove with
    | joins errand source mode => exact happend ih (hnew _ _)
    | visits mode d => exact happend ih (hnew _ _)
    | registers registry => exact ih
    | asks hi => exact hset ih (hasks _ (ih _ (List.mem_of_getElem? hi)))
    | hears hi hrest => exact hset ih (hhears _ _ _ _ _ (ih _ (List.mem_of_getElem? hi)) hrest)

/-- Every client is somewhere in its errand, as its exchanges say. -/
lemma after (h : Run name start log y) (hstart : start.clients = []) :
    ∀ c ∈ y.clients, (c.errand.program name c.run ()).After c.heard c.rest := by
  refine h.each (by simp [hstart]) (fun _ _ => .refl _) (fun _ hc => hc) ?_
  intro c q s r resume hc hrest
  rw [hrest] at hc
  exact hc.snoc r

end Run

/-- An answer changes the lifecycle as its exchange says. -/
lemma Answers.change {y : Shared C} {i : ℕ} {e : StageExchange C} {l : Lifecycle}
    {opener : Option ℕ} (h : y.Answers i e l opener) : l = e.change y.lifecycle := by
  cases h <;> rfl

/-! ## Where the clients are -/

section
variable {clients : List (Client C)} {i j : ℕ} {c d : Client C}

lemma getElem?_joined : (clients ++ [c])[j]? = some d ↔
    clients[j]? = some d ∨ j = clients.length ∧ c = d := by
  rw [List.getElem?_append]
  split
  · constructor
    · exact .inl
    · rintro (h | ⟨rfl, -⟩)
      · exact h
      · omega
  · constructor
    · intro h
      obtain ⟨hlt, heq⟩ := List.getElem?_eq_some_iff.1 h
      rw [List.length_singleton] at hlt
      rw [List.getElem_singleton] at heq
      exact .inr ⟨by omega, heq⟩
    · rintro (h | ⟨rfl, rfl⟩)
      · have := (List.getElem?_eq_some_iff.1 h).1
        omega
      · simp

lemma getElem?_moved (hi : i < clients.length) : (clients.set i c)[j]? = some d ↔
    j = i ∧ c = d ∨ j ≠ i ∧ clients[j]? = some d := by
  rw [List.getElem?_set]
  by_cases hj : i = j
  · subst hj
    simp [hi]
  · simp [hj, Ne.symm hj]

end

section
variable {P : Type} {K : Client C → P → Prop} {place : ℕ → P} {clients : List (Client C)} {i : ℕ}
  {c : Client C}

/-- Every client is at its place. -/
def Stands (K : Client C → P → Prop) (place : ℕ → P) (clients : List (Client C)) : Prop :=
  ∀ i c, clients[i]? = some c → K c (place i)

lemma Stands.append (h : Stands K place clients) (hnew : K c (place clients.length)) :
    Stands K place (clients ++ [c]) := by
  intro j d hd
  obtain hd | ⟨rfl, rfl⟩ := getElem?_joined.1 hd
  · exact h j d hd
  · exact hnew

/-- One of them moves to another place. -/
lemma Stands.set {p : P} (h : Stands K place clients) (hi : i < clients.length) (hnew : K c p) :
    Stands K (Function.update place i p) (clients.set i c) := by
  intro j d hd
  obtain ⟨rfl, rfl⟩ | ⟨hj, hd⟩ := (getElem?_moved hi).1 hd
  · rwa [Function.update_self]
  · rw [Function.update_of_ne hj]
    exact h j d hd

end
end Shared
end WorkerHost
