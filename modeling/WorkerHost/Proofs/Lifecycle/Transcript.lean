import Mathlib.Data.List.Basic
import WorkerHost.Proofs.Lifecycle.Asking
import WorkerHost.Proofs.Lifecycle.Lockstep

/-!
# Transcripts of runs

`Stage.transcribed` is a stage that keeps a transcript of all that it is asked and answers.

* `Stage.transcribed_run`: this changes nothing else about a run;
* `Stage.sourced_run`: all the code that is executed is the user's, or it has been read as that of a
  phase.
-/

namespace WorkerHost
variable {C : Type}

/-! ## Transcripts -/

namespace Stage
variable {m : Type → Type} [Monad m]

/-- Does something and notes it. -/
def noted (q : StageAsk C) (x : m q.Answer) : StateT (List (StageExchange C)) m q.Answer :=
  fun es => do
    let r ← x
    return (r, es ++ [⟨q, r⟩])

/-- The stage that does the same, and keeps a transcript of what it is asked and answers. -/
def transcribed (st : Stage m C) : Stage (StateT (List (StageExchange C)) m) C where
  get := noted .get st.get
  isReady := noted .isReady st.isReady
  modify f := noted (.modify f) (st.modify f)
  callbacks phase := noted (.callbacks phase) (st.callbacks phase)
  code phase := noted (.code phase) (st.code phase)
  callbackName := st.callbackName
  invoke phase run c := noted (.invoke phase run c) (st.invoke phase run c)
  execute mode code := noted (.execute mode code) (st.execute mode code)
  notify text := noted (.notify text) (st.notify text)

section
variable [LawfulMonad m]

/-- But for its transcript a computation is another one. -/
def transcripts : MonadRel (StateT (List (StageExchange C)) m) m where
  rel x y := ∀ es, Prod.fst <$> x.run es = y
  pure a es := by simp
  bind {_ _ x y f g} hx hf es := by
    simp only [StateT.run_bind, map_bind]
    rw [← hx es, bind_map_left]
    exact bind_congr fun p => hf p.1 p.2

lemma transcripts_lift {α : Type} (x : m α) : (transcripts (C := C)).rel (liftM x) x := by
  intro es
  simp [liftM, monadLift, MonadLift.monadLift]

lemma transcripts_noted (q : StageAsk C) (x : m q.Answer) : transcripts.rel (noted q x) x := by
  intro es
  simp [noted, StateT.run]

lemma transcribed_lockstep (st : Stage m C) : st.transcribed.Lockstep transcripts st where
  get := transcripts_noted .get _
  isReady := transcripts_noted .isReady _
  modify f := transcripts_noted (.modify f) _
  callbacks phase := transcripts_noted (.callbacks phase) _
  code phase := transcripts_noted (.code phase) _
  callbackName := rfl
  invoke phase run c := transcripts_noted (.invoke phase run c) _
  execute mode code := transcripts_noted (.execute mode code) _
  notify text := transcripts_noted (.notify text) _

/-- Transcripts change nothing about a run. -/
theorem transcribed_run (st : Stage m C) (mode : RunMode) (d : RunDescriptor) (code : String)
    (es : List (StageExchange C)) :
    Prod.fst <$> (st.transcribed.run mode d code).run es = st.run mode d code :=
  st.transcribed_lockstep.wholeRun mode d code es

end
end Stage

/-! ## Where code comes from -/

namespace Stage

/-- The code that is executed is the user's, or it has been read as that of a phase. -/
def Sourced (code : String) (es : List (StageExchange C)) : Prop :=
  ∀ mode text r, (⟨.execute mode text, r⟩ : StageExchange C) ∈ es →
    text = code ∨ ∃ p, (⟨.code p, text⟩ : StageExchange C) ∈ es

namespace Sourced
variable {code : String} {es es' : List (StageExchange C)}

lemma nil : Sourced code ([] : List (StageExchange C)) := by
  rintro _ _ _ ⟨⟩

lemma append (h : Sourced code es) (h' : Sourced code es') : Sourced code (es ++ es') := by
  intro mode text r hmem
  refine (List.mem_append.1 hmem).elim (fun hmem => ?_) fun hmem => ?_
  · exact (h mode text r hmem).imp_right fun ⟨p, hp⟩ => ⟨p, List.mem_append_left _ hp⟩
  · exact (h' mode text r hmem).imp_right fun ⟨p, hp⟩ => ⟨p, List.mem_append_right _ hp⟩

lemma single {q : StageAsk C} (hq : ∀ mode text, q ≠ .execute mode text) (r : q.Answer) :
    Sourced code [⟨q, r⟩] := by
  intro mode text _ hmem
  cases List.mem_singleton.1 hmem
  cases hq mode text rfl

lemma read (code : String) (p : Phase) (mode : RunMode) (text : String)
    (r : Option (Except InterpreterError Value)) :
    Sourced code [(⟨.code p, text⟩ : StageExchange C), ⟨.execute mode text, r⟩] := by
  intro _ _ _ hmem
  obtain h | h := List.mem_pair.1 hmem <;> cases h
  exact .inr ⟨p, List.mem_cons_self⟩

end Sourced

variable {σ : Type}

/-- What a computation adds to the transcript. -/
def Adds {α : Type} (P : α → List (StageExchange C) → Prop)
    (x : StateT (List (StageExchange C)) (StateM σ) α) : Prop :=
  ∀ es s, ∃ new, ((x.run es).run s).1.2 = es ++ new ∧ P ((x.run es).run s).1.1 new

namespace Adds
variable {α β : Type} {P : α → List (StageExchange C) → Prop}
  {P' : β → List (StageExchange C) → Prop}

lemma pure {a : α} (h : P a []) :
    Adds P (Pure.pure a : StateT (List (StageExchange C)) (StateM σ) α) :=
  fun es _ => ⟨[], (List.append_nil es).symm, h⟩

lemma noted (q : StageAsk C) (x : StateM σ q.Answer) : Adds (fun r new => new = [⟨q, r⟩])
    (Stage.noted q x) :=
  fun _ _ => ⟨_, rfl, rfl⟩

lemma bind {x : StateT (List (StageExchange C)) (StateM σ) α}
    {f : α → StateT (List (StageExchange C)) (StateM σ) β} (hx : Adds P x)
    (hf : ∀ a new, P a new → Adds (fun b new' => P' b (new ++ new')) (f a)) :
    Adds P' (x >>= f) := by
  intro es s
  obtain ⟨new, hnew, hp⟩ := hx es s
  obtain ⟨new', hnew', hp'⟩ := hf _ new hp ((x.run es).run s).1.2 ((x.run es).run s).2
  exact ⟨new ++ new', hnew'.trans (by rw [hnew, List.append_assoc]), hp'⟩

lemma mono {x : StateT (List (StageExchange C)) (StateM σ) α}
    {P P' : α → List (StageExchange C) → Prop} (hx : Adds P x)
    (h : ∀ a new, P a new → P' a new) : Adds P' x := fun es s =>
  let ⟨new, hes, hnew⟩ := hx es s
  ⟨new, hes, h _ new hnew⟩

end Adds

/-- What is added to the transcript says where its code comes from. -/
def sources (C σ : Type) (code : String) : MonadRel (StateT (List (StageExchange C)) (StateM σ))
    (StateT (List (StageExchange C)) (StateM σ)) where
  rel x _ := Adds (fun _ => Sourced code) x
  pure _ := .pure .nil
  bind hx hf := hx.bind fun a _ hnew => (hf a).mono fun _ _ hnew' => hnew.append hnew'

section
variable {code : String} {st : Stage (StateM σ) C}

lemma sources_noted (q : StageAsk C) (x : StateM σ q.Answer)
    (hq : ∀ mode text, q ≠ .execute mode text) :
    (sources C σ code).rel (noted q x) (noted q x) := by
  show Adds (fun _ => Sourced code) (noted q x)
  exact (Adds.noted q x).mono fun r _ hnew => hnew ▸ .single hq r

lemma sources_notify (text : String) :
    (sources C σ code).rel (st.transcribed.notify text) (st.transcribed.notify text) :=
  sources_noted (.notify text) _ fun _ _ => nofun

/-- The code of a phase is read right before it is executed. -/
lemma adds_executeCode (mode : RunMode) (phase : Phase) :
    Adds (fun _ => Sourced code) (st.transcribed.executeCode mode phase) := by
  have hreport (e : RunError) : Adds (fun _ => Sourced code) (st.transcribed.report e) :=
    rel_report (R := sources C σ code) sources_notify e
  rw [executeCode_eq]
  refine .bind (.noted (.code phase) _) fun text _ hread => ?_
  subst hread
  split
  · exact .pure (Sourced.single (q := .code phase) (fun _ _ => nofun) text)
  · refine .bind (.noted (.execute mode text) _) fun outcome _ hexecuted => ?_
    subst hexecuted
    have hread := Sourced.read (C := C) code phase mode text outcome
    split
    · exact .bind (hreport _) fun _ _ hnew => .pure (hread.append (hnew.append .nil))
    · exact .pure (hread.append .nil)

lemma sources_parts (mode : RunMode) (d : RunDescriptor) :
    PartsLockstep (sources C σ code) st.transcribed st.transcribed mode d where
  get := sources_noted .get _ fun _ _ => nofun
  isReady := sources_noted .isReady _ fun _ _ => nofun
  modify f := sources_noted (.modify f) _ fun _ _ => nofun
  report := rel_report sources_notify
  fire phase := by
    have hcallbacks : (sources C σ code).rel (st.transcribed.callbacks phase) _ :=
      sources_noted (.callbacks phase) (st.callbacks phase) fun _ _ => nofun
    exact (sources C σ code).bind hcallbacks fun cs => rel_callAll sources_notify rfl cs
      fun c _ => sources_noted (.invoke phase d c) _ fun _ _ => nofun
  executeCode := adds_executeCode mode

lemma sources_executeUser (mode : RunMode) :
    (sources C σ code).rel (st.transcribed.executeUser mode code)
      (st.transcribed.executeUser mode code) := by
  refine rel_executeUser ?_
  show Adds (fun _ => Sourced code) (noted (.execute mode code) _)
  refine (Adds.noted (.execute mode code) _).mono fun r _ hnew => ?_
  subst hnew
  intro _ _ _ hmem
  cases List.mem_singleton.1 hmem
  exact .inl rfl

/-- A run executes its own code and that of phases. -/
lemma sourced_run (mode : RunMode) (d : RunDescriptor) (s : σ) :
    Sourced code (((st.transcribed.run mode d code).run []).run s).1.2 := by
  rw [run_eq]
  obtain ⟨new, hes, hnew⟩ := (sources_parts mode d).around (sources_executeUser mode) [] s
  exact hes ▸ hnew

end
end Stage

end WorkerHost
