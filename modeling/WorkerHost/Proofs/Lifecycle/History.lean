import WorkerHost.Proofs.Hooks.Contents
import WorkerHost.Proofs.Lifecycle.Local
import WorkerHost.Proofs.Outcome

/-!
# The history of hooks in a run

Callbacks can register and remove hooks of every phase while they are called, and so can the code
that is executed. `Behaviour.Changes` says which changes these are, and `Behaviour.observed` is a
stage that notes them, with the phases that begin, the hooks that they find, and what is called and
executed. It changes nothing else, `Behaviour.lockstep_observed`.

`Behaviour.Turns` says how a history is made up of turns, each of which begins with a phase or the
user's code and goes on with nothing but what belongs to it.
-/

namespace WorkerHost

/-! ## Events -/

/-- What can be seen of the hooks of a run. -/
inductive HookEvent (C : Type) where
  /-- a phase looked up its callbacks -/
  | begun (phase : Phase) (cs : List C)
  /-- a phase looked up its code -/
  | composed (phase : Phase) (code : String)
  /-- a callback was called -/
  | called (phase : Phase) (c : C)
  /-- code was executed -/
  | executed (code : String)
  /-- a callback or the code changed the registry -/
  | changed (c : HookChange C)

namespace HookEvent
variable {C : Type}

def change? : HookEvent C → Option (HookChange C)
  | changed c => some c
  | _ => none

def call? : HookEvent C → Option (Phase × C)
  | called phase c => some (phase, c)
  | _ => none

/-- The phase that begins. -/
def phase? : HookEvent C → Option Phase
  | begun phase _ | composed phase _ => some phase
  | _ => none

/-- The callbacks that a phase begins with. -/
def found : HookEvent C → List (Phase × C)
  | begun phase cs => cs.map (phase, ·)
  | _ => []

/-- Calls, and the changes that come with them. -/
def ofCalls : HookEvent C → Bool
  | called .. | changed _ => true
  | _ => false

/-- What a phase found is what a registry has. -/
def Fits (r : Registry C) : HookEvent C → Prop
  | begun phase cs => cs = r.callbacksOf phase
  | composed phase code => code = r.composed phase
  | _ => True

lemma fits_of_phase?_eq_none {e : HookEvent C} (h : e.phase? = none) (r : Registry C) :
    e.Fits r := by
  cases e with
  | begun | composed => cases h
  | called | executed | changed => trivial

lemma found_of_phase?_eq_none {e : HookEvent C} (h : e.phase? = none) : e.found = [] := by
  cases e with
  | begun | composed => cases h
  | called | executed | changed => rfl

/-- The changes of a history. -/
def changesIn (h : List (HookEvent C)) : List (HookChange C) := h.filterMap change?

/-- The calls of a history. -/
def callsIn (h : List (HookEvent C)) : List (Phase × C) := h.filterMap call?

/-- The phases of a history. -/
def phasesIn (h : List (HookEvent C)) : List Phase := h.filterMap phase?

@[simp] lemma changesIn_append (h h' : List (HookEvent C)) :
    changesIn (h ++ h') = changesIn h ++ changesIn h' := List.filterMap_append

@[simp] lemma callsIn_append (h h' : List (HookEvent C)) :
    callsIn (h ++ h') = callsIn h ++ callsIn h' := List.filterMap_append

@[simp] lemma phasesIn_append (h h' : List (HookEvent C)) :
    phasesIn (h ++ h') = phasesIn h ++ phasesIn h' := List.filterMap_append

section
variable (cs : List (HookChange C))

@[simp] lemma changesIn_map_changed : changesIn (cs.map changed) = cs := by
  simp [changesIn, List.filterMap_map, Function.comp_def, change?]

@[simp] lemma callsIn_map_changed : callsIn (cs.map changed) = [] := by
  simp [callsIn, List.filterMap_map, Function.comp_def, call?]

lemma phase?_of_mem_map_changed {e : HookEvent C} (he : e ∈ cs.map changed) : e.phase? = none := by
  obtain ⟨c, -, rfl⟩ := List.mem_map.1 he
  rfl

lemma ofCalls_of_mem_map_changed {e : HookEvent C} (he : e ∈ cs.map changed) :
    e.ofCalls = true := by
  obtain ⟨c, -, rfl⟩ := List.mem_map.1 he
  rfl

end

lemma phase?_of_ofCalls {e : HookEvent C} (h : e.ofCalls = true) : e.phase? = none := by
  cases e with
  | called | changed => rfl
  | begun | composed | executed => cases h

end HookEvent

open HookEvent

/-! ## Histories that show a registry -/

section
variable {C : Type} [BEq C] {r : Registry C} {h h' : List (HookEvent C)}

/-- Every phase finds what is registered for it after all changes before it. -/
def Seen (r : Registry C) (h : List (HookEvent C)) : Prop :=
  ∀ before e after, h = before ++ e :: after → e.Fits (r.applyAll (changesIn before)).2

lemma Seen.append (hseen : Seen r h) (hseen' : Seen (r.applyAll (changesIn h)).2 h') :
    Seen r (h ++ h') := by
  intro before e after heq
  -- what is found in the second part is found after all changes of the first
  rcases append_eq_append_cons heq with ⟨rest, rfl, -⟩ | ⟨skipped, rfl, rfl⟩
  · exact hseen before e rest rfl
  · rw [changesIn_append, Registry.applyAll_append]
    exact hseen' skipped e after rfl

/-- Where no phase begins, nothing is found. -/
lemma seen_of_forall_phase? (hquiet : ∀ e ∈ h, e.phase? = none) : Seen r h := by
  rintro before e after rfl
  exact fits_of_phase?_eq_none (hquiet e (List.mem_append_right _ List.mem_cons_self)) _

lemma seen_singleton {e : HookEvent C} (he : e.Fits r) : Seen r [e] := by
  intro before e' after heq
  obtain ⟨rfl, hsingle⟩ | ⟨-, hnil⟩ := List.append_eq_singleton_iff.1 heq.symm
  · cases hsingle
    exact he
  · cases hnil

end

/-! ## Turns -/

/-- Events are the calls of some callbacks in a phase, each once and in their order, with the
changes that come with them. -/
structure CallsOf {C : Type} (phase : Phase) (cs : List C) (h : List (HookEvent C)) : Prop where
  calls : callsIn h = cs.map (phase, ·)
  ofCalls : ∀ e ∈ h, e.ofCalls = true

namespace CallsOf
variable {C : Type} {phase : Phase} {cs : List C} {h : List (HookEvent C)}

lemma nil : CallsOf phase ([] : List C) [] := ⟨rfl, nofun⟩

lemma cons (c : C) (changes : List (HookChange C)) (hrest : CallsOf phase cs h) :
    CallsOf phase (c :: cs) (.called phase c :: changes.map .changed ++ h) := by
  refine ⟨?_, List.forall_mem_append.2 ⟨List.forall_mem_cons.2 ⟨rfl, ?_⟩, hrest.ofCalls⟩⟩
  · rw [callsIn_append, hrest.calls]
    exact congrArg ((phase, c) :: · ++ _) (callsIn_map_changed changes)
  · exact fun _ => ofCalls_of_mem_map_changed changes

end CallsOf

namespace Behaviour
variable {C ω : Type} {b : Behaviour C ω} {ps ps' : List Phase} {h h' : List (HookEvent C)}

/-- What belongs together in a history, and the phase that it begins with. -/
inductive Turn (b : Behaviour C ω) : List Phase → List (HookEvent C) → Prop
  /-- a phase calls the callbacks that it has found -/
  | fired {phase : Phase} {cs : List C} {calls : List (HookEvent C)}
      (hcalls : CallsOf phase cs calls) : Turn b [phase] (.begun phase cs :: calls)
  /-- a phase passes over its code, as there is none or no interpreter -/
  | skipped {phase : Phase} {code : String}
      (hskipped : code.isEmpty = true ∨ b.interpreter = none) :
      Turn b [phase] [.composed phase code]
  /-- a phase executes the code that it has found -/
  | ran (phase : Phase) (code : String) (cs : List (HookChange C)) :
      Turn b [phase] (.composed phase code :: .executed code :: cs.map .changed)
  /-- the user's code is executed -/
  | user (code : String) (cs : List (HookChange C)) :
      Turn b [] (.executed code :: cs.map .changed)

/-- A history is made up of turns with some phases. -/
inductive Turns (b : Behaviour C ω) : List Phase → List (HookEvent C) → Prop
  | nil : Turns b [] []
  | cons {ps ps' : List Phase} {turn rest : List (HookEvent C)} (hturn : Turn b ps turn)
      (hrest : Turns b ps' rest) : Turns b (ps ++ ps') (turn ++ rest)

/-- Nothing but its first event begins a turn. -/
lemma Turn.exists_cons {turn : List (HookEvent C)} (hturn : Turn b ps turn) :
    ∃ e rest, turn = e :: rest ∧ e.ofCalls = false ∧ e.phase?.toList = ps ∧
      ∀ e' ∈ rest, e'.phase? = none := by
  have hchanges (cs : List (HookChange C)) : ∀ e ∈ cs.map changed, e.phase? = none :=
    fun e => phase?_of_mem_map_changed cs
  cases hturn with
  | fired hcalls =>
    exact ⟨_, _, rfl, rfl, rfl, fun e he => phase?_of_ofCalls (hcalls.ofCalls e he)⟩
  | skipped => exact ⟨_, _, rfl, rfl, rfl, nofun⟩
  | ran phase code cs => exact ⟨_, _, rfl, rfl, rfl, List.forall_mem_cons.2 ⟨rfl, hchanges cs⟩⟩
  | user code cs => exact ⟨_, _, rfl, rfl, rfl, hchanges cs⟩

lemma Turn.callsIn_eq {turn : List (HookEvent C)} (hturn : Turn b ps turn) :
    callsIn turn = turn.flatMap found := by
  obtain ⟨e, rest, rfl, -, -, hrest⟩ := hturn.exists_cons
  have hfound : rest.flatMap found = [] :=
    List.flatMap_eq_nil_iff.2 fun e he => found_of_phase?_eq_none (hrest e he)
  rw [List.flatMap_cons, hfound, List.append_nil]
  cases hturn with
  | fired hcalls => exact hcalls.calls
  | skipped => rfl
  | ran phase code cs => exact callsIn_map_changed cs
  | user code cs => exact callsIn_map_changed cs

namespace Turns

lemma append (hturns : Turns b ps h) (hturns' : Turns b ps' h') :
    Turns b (ps ++ ps') (h ++ h') := by
  induction hturns with
  | nil => exact hturns'
  | cons hturn hrest ih =>
    rw [List.append_assoc, List.append_assoc]
    exact .cons hturn ih

lemma of_turn (hturn : Turn b ps h) : Turns b ps h := by
  have := Turns.cons hturn .nil
  rwa [List.append_nil, List.append_nil] at this

lemma phasesIn_eq (hturns : Turns b ps h) : phasesIn h = ps := by
  induction hturns with
  | nil => rfl
  | cons hturn hrest ih =>
    obtain ⟨e, rest, rfl, -, rfl, hnone⟩ := hturn.exists_cons
    have hrest : phasesIn rest = [] := List.filterMap_eq_nil_iff.2 hnone
    rw [phasesIn_append, ih]
    congr 1
    show (e :: rest).filterMap phase? = _
    rw [List.filterMap_cons]
    cases e.phase? with
    | none => exact hrest
    | some phase => exact congrArg _ hrest

/-- Everything that is called has been found by a phase, and the other way round. -/
lemma callsIn_eq (hturns : Turns b ps h) : callsIn h = h.flatMap found := by
  induction hturns with
  | nil => rfl
  | cons hturn hrest ih => rw [callsIn_append, List.flatMap_append, hturn.callsIn_eq, ih]

lemma ofCalls_head? (hturns : Turns b ps h) {e : HookEvent C} (he : h.head? = some e) :
    e.ofCalls = false := by
  cases hturns with
  | nil => cases he
  | cons hturn hrest =>
    obtain ⟨e', rest, rfl, hcalls, -, -⟩ := hturn.exists_cons
    cases he
    exact hcalls

/-- A phase begins a turn. -/
lemma exists_turn (hturns : Turns b ps h) {before after : List (HookEvent C)} {e : HookEvent C}
    {phase : Phase} (he : e.phase? = some phase) (heq : h = before ++ e :: after) :
    ∃ turn ps' rest, after = turn ++ rest ∧ Turn b [phase] (e :: turn) ∧ Turns b ps' rest := by
  induction hturns generalizing before with
  | nil => simp at heq
  | @cons ps ps' turn rest hturn hrest ih =>
    rcases append_eq_append_cons heq with ⟨front, hturneq, rfl⟩ | ⟨skipped, -, hresteq⟩
    · obtain ⟨e', more, rfl, -, rfl, hmore⟩ := hturn.exists_cons
      -- a phase that begins in this turn begins it
      cases before with
      | nil =>
        obtain ⟨rfl, rfl⟩ := List.cons.inj hturneq
        rw [he] at hturn
        exact ⟨_, _, _, rfl, hturn, hrest⟩
      | cons =>
        obtain ⟨-, rfl⟩ := List.cons.inj hturneq
        have hnone := hmore e (List.mem_append_right _ List.mem_cons_self)
        rw [he] at hnone
        cases hnone
    · exact ih hresteq

/-- What a phase has found it calls before anything else begins. -/
lemma calls_of_begun (hturns : Turns b ps h) {before after : List (HookEvent C)} {phase : Phase}
    {cs : List C} (heq : h = before ++ .begun phase cs :: after) :
    callsIn (after.takeWhile ofCalls) = cs.map (phase, ·) := by
  obtain ⟨turn, _, rest, rfl, hturn, hrest⟩ := hturns.exists_turn rfl heq
  cases hturn with
  | fired hcalls =>
    -- what follows the calls begins something else
    have hstop : rest.takeWhile ofCalls = [] := by
      cases rest with
      | nil => rfl
      | cons e rest => exact List.takeWhile_cons_of_neg (by simp [hrest.ofCalls_head? rfl])
    rw [List.takeWhile_append_of_pos hcalls.ofCalls, hstop, List.append_nil, hcalls.calls]

/-- The code that a phase has found it executes before anything else. -/
lemma executed_of_composed (hturns : Turns b ps h) {before after : List (HookEvent C)}
    {phase : Phase} {code : String} (heq : h = before ++ .composed phase code :: after)
    (hcode : code.isEmpty = false) (hbound : b.interpreter ≠ none) :
    after.head? = some (.executed code) := by
  obtain ⟨turn, _, rest, rfl, hturn, hrest⟩ := hturns.exists_turn rfl heq
  cases hturn with
  | skipped hskipped =>
    rcases hskipped with hempty | hnone
    · rw [hcode] at hempty
      cases hempty
    · exact absurd hnone hbound
  | ran => rfl

end Turns

/-! ## Stages that note what happens -/

/-- Which changes callbacks and executed code make, in their order. -/
structure Changes [BEq C] (b : Behaviour C ω) where
  ofCall : Phase → RunDescriptor → C → Lifecycle → Registry C × ω → List (HookChange C)
  ofCode : RunMode → String → Registry C × ω → List (HookChange C)
  call_eq : ∀ phase run c l x,
    (b.call phase run c l x).2.1 = (x.1.applyAll (ofCall phase run c l x)).2
  code_eq : ∀ execute, b.interpreter = some execute → ∀ mode code x,
    (execute mode code x).2.1 = (x.1.applyAll (ofCode mode code x)).2

end Behaviour

/-- A recorded lifecycle with the history of its hooks. -/
structure Observed (C ω : Type) where
  recorded : Recorded C ω
  history : List (HookEvent C)

namespace Observed
variable {C ω α : Type}

def registry (t : Observed C ω) : Registry C := t.recorded.context.1

/-- A computation that nothing is noted of. -/
def unnoted (x : StateM (Recorded C ω) α) : StateM (Observed C ω) α := fun t =>
  let (a, recorded) := x t.recorded
  (a, ⟨recorded, t.history⟩)

/-- A computation with what is noted of it. -/
def noting (x : StateM (Recorded C ω) α) (note : Recorded C ω → α → List (HookEvent C)) :
    StateM (Observed C ω) α := fun t =>
  let (a, recorded) := x t.recorded
  (a, ⟨recorded, t.history ++ note t.recorded a⟩)

lemma run_noting {x : StateM (Recorded C ω) α} {t : Observed C ω} {a : α}
    {recorded : Recorded C ω} (h : x.run t.recorded = (a, recorded))
    (note : Recorded C ω → α → List (HookEvent C)) :
    (noting x note).run t = (a, ⟨recorded, t.history ++ note t.recorded a⟩) := by
  simp only [noting, StateT.run] at h ⊢
  rw [h]

end Observed

namespace Behaviour
variable {C ω : Type} [BEq C] {b : Behaviour C ω}

open Observed

/-- What is noted of code, which is executed or not. -/
def noteExecution (ch : b.Changes) (mode : RunMode) (code : String) (t : Recorded C ω) :
    Option (Except InterpreterError Value) → List (HookEvent C)
  | none => []
  | some _ => .executed code :: (ch.ofCode mode code t.context).map .changed

/-- The stage of a behaviour that also keeps the history of the hooks. -/
def observed (ch : b.Changes) : Stage (StateM (Observed C ω)) C where
  get := unnoted b.stage.get
  isReady := unnoted b.stage.isReady
  modify f := unnoted (b.stage.modify f)
  callbacks phase := noting (b.stage.callbacks phase) fun _ cs => [.begun phase cs]
  code phase := noting (b.stage.code phase) fun _ code => [.composed phase code]
  callbackName := b.callbackName
  invoke phase run c := noting (b.stage.invoke phase run c) fun t _ =>
    .called phase c :: (ch.ofCall phase run c t.lifecycle t.context).map .changed
  execute mode code := noting (b.stage.execute mode code) (noteExecution ch mode code)
  notify text := unnoted (b.stage.notify text)

/-- The history makes no difference to a run. -/
theorem lockstep_observed (ch : b.Changes) :
    b.stage.Lockstep (simulates Observed.recorded) (b.observed ch) where
  get := fun _ => rfl
  isReady := fun _ => rfl
  modify _ := fun _ => rfl
  callbacks _ := fun _ => rfl
  code _ := fun _ => rfl
  callbackName := rfl
  invoke _ _ _ := fun _ => rfl
  execute _ _ := fun _ => rfl
  notify _ := fun _ => rfl

end Behaviour
end WorkerHost
