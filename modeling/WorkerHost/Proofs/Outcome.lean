import Mathlib.Tactic.Common
/-!
# Computations that may fail

A computation in `Except` succeeds exactly when its parts do, and a traversal of a list when all its
steps do; otherwise it fails as the first of them that fails.
-/

namespace WorkerHost
variable {ε α β : Type}

/-- The parts of a computation that succeeds. -/
lemma bind_eq_ok {x : Except ε α} {f : α → Except ε β} {b : β} :
    x >>= f = .ok b ↔ ∃ a, x = .ok a ∧ f a = .ok b := by
  cases x with
  | error e =>
    constructor
    · intro h
      cases h
    · intro hx
      obtain ⟨a, h, -⟩ := hx
      cases h
  | ok a =>
    constructor
    · intro h
      exact ⟨a, rfl, h⟩
    · intro hx
      obtain ⟨a', h, hf⟩ := hx
      cases h
      exact hf

/-- Another reason for failing changes nothing about a success. -/
lemma of_mapError_eq_ok {x : Except ε α} {f : ε → β} {a : α} (h : x.mapError f = .ok a) :
    x = .ok a := by
  cases x with
  | error e => cases h
  | ok b =>
    cases h
    rfl

/-- A traversal in which no step fails is a map. -/
lemma mapM_eq_ok {f : α → Except ε β} {g : α → β} {l : List α} (h : ∀ a ∈ l, f a = .ok (g a)) :
    l.mapM f = .ok (l.map g) := by
  induction l with
  | nil => rfl
  | cons a rest ih =>
    rw [List.mapM_cons, h a List.mem_cons_self, ih fun b hb => h b (List.mem_cons_of_mem _ hb)]
    rfl

/-- A traversal of changed members takes the steps that their changes do not show in. -/
lemma mapM_map_congr {γ : Type} {q : α → γ} {f : α → Except ε β} {g : γ → Except ε β} {l : List α}
    (h : ∀ a ∈ l, g (q a) = f a) : (l.map q).mapM g = l.mapM f := by
  induction l with
  | nil => rfl
  | cons a rest ih =>
    rw [List.map_cons, List.mapM_cons, List.mapM_cons, h a List.mem_cons_self,
      ih fun b hb => h b (List.mem_cons_of_mem _ hb)]

/-- In a traversal that succeeds, every step does. -/
lemma exists_of_mapM_eq_ok {f : α → Except ε β} {l : List α} {bs : List β}
    (h : l.mapM f = .ok bs) : ∀ a ∈ l, ∃ b, f a = .ok b := by
  induction l generalizing bs with
  | nil => simp
  | cons a rest ih =>
    rw [List.mapM_cons] at h
    obtain ⟨b, hfirst, h⟩ := bind_eq_ok.1 h
    obtain ⟨bs, hrest, -⟩ := bind_eq_ok.1 h
    intro c hc
    rcases List.mem_cons.1 hc with rfl | hc
    · exact ⟨b, hfirst⟩
    · exact ih hrest c hc

/-- A traversal of changed members is the traversal, changed, if every step is. -/
lemma mapM_map_comm {γ δ : Type} {q : α → γ} {q' : β → δ} {f : α → Except ε β} {g : γ → Except ε δ}
    (h : ∀ a, g (q a) = (f a).map q') (l : List α) :
    (l.map q).mapM g = (l.mapM f).map (List.map q') := by
  induction l with
  | nil => rfl
  | cons a rest ih =>
    rw [List.map_cons, List.mapM_cons, List.mapM_cons, h, ih]
    cases f a with
    | error e => rfl
    | ok b =>
      cases rest.mapM f with
      | error e => rfl
      | ok bs => rfl

/-! ## The first failure -/

/-- The failure of a computation, if it has one. -/
def failure? : Except ε α → Option ε
  | .ok _ => none
  | .error e => some e

lemma failure?_eq_some_iff {x : Except ε α} {e : ε} : failure? x = some e ↔ x = .error e := by
  cases x <;> simp [failure?]

lemma failure?_eq_none_iff {x : Except ε α} : failure? x = none ↔ ∃ a, x = .ok a := by
  cases x <;> simp [failure?]

/-- If what comes second fails in the same way whatever the first gives, the first failure counts.
-/
lemma failure?_bind {x : Except ε α} {f : α → Except ε β} {e : Option ε}
    (hf : ∀ a, failure? (f a) = e) : failure? (x >>= f) = (failure? x).or e := by
  cases x with
  | error e' => rfl
  | ok a => exact hf a

/-- A traversal fails as the first of its steps that does. -/
lemma failure?_mapM {f : α → Except ε β} {e : α → Option ε} {l : List α}
    (hf : ∀ a ∈ l, failure? (f a) = e a) : failure? (l.mapM f) = l.findSome? e := by
  induction l with
  | nil => rfl
  | cons a rest ih =>
    have hrest (b : β) : failure? (rest.mapM f >>= fun bs => pure (b :: bs)) =
        rest.findSome? e := by
      rw [failure?_bind (e := none) fun bs => rfl, Option.or_none,
        ih fun b hb => hf b (List.mem_cons_of_mem _ hb)]
    rw [List.mapM_cons, failure?_bind hrest, List.findSome?_cons, hf a List.mem_cons_self]
    cases e a <;> rfl

/-! ## Parts of a list -/

/-- A member of a list in two parts stands in one of them. -/
lemma append_eq_append_cons {front back pre post : List α} {a : α}
    (h : front ++ back = pre ++ a :: post) :
    (∃ rest, front = pre ++ a :: rest ∧ post = rest ++ back) ∨
      ∃ skipped, pre = front ++ skipped ∧ back = skipped ++ a :: post := by
  rcases List.append_eq_append_iff.1 h with ⟨between, hpre, hback⟩ | ⟨between, hfront, hpost⟩
  · exact .inr ⟨between, hpre, hback⟩
  · cases between with
    | nil =>
      rw [List.append_nil] at hfront
      exact .inr ⟨[], by rw [hfront, List.append_nil], hpost.symm⟩
    | cons b rest =>
      obtain ⟨rfl, hrest⟩ := List.cons.inj hpost
      exact .inl ⟨rest, hfront, hrest⟩

end WorkerHost
