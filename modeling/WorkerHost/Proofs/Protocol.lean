import WorkerHost.Proofs.Task

/-!
# Rules of conversations

A computation that asks is a tree: it goes on from a question as the answer says. `Step.After` says
where in its tree a computation is after some exchanges.

`Step.Obeys` says that a computation keeps to rules: it is at a place, every exchange leads to
another place as the rules allow, and with a result it is where it should be. Rules count on answers
of some kind only.
-/

namespace WorkerHost
namespace Step
variable {σ Q α β P : Type} {R : Q → Type}

/-! ## Where a computation is -/

/-- After some exchanges a computation is here. -/
inductive After : Step Unit Q R α → List ((q : Q) × R q) → Step Unit Q R α → Prop
  | refl (x : Step Unit Q R α) : After x [] x
  | cons {q : Q} {s : Unit} {resume : R q → Unit → Step Unit Q R α} {r : R q}
      {es : List ((q : Q) × R q)} {y : Step Unit Q R α} (h : After (resume r ()) es y) :
      After (.ask q s resume) (⟨q, r⟩ :: es) y

namespace After
variable {x y z : Step Unit Q R α} {es es' : List ((q : Q) × R q)}

lemma trans (h : After x es y) (h' : After y es' z) : After x (es ++ es') z := by
  induction h with
  | refl x => exact h'
  | cons _ ih => exact .cons (ih h')

lemma snoc {q : Q} {s : Unit} {resume : R q → Unit → Step Unit Q R α}
    (h : After x es (.ask q s resume)) (r : R q) : After x (es ++ [⟨q, r⟩]) (resume r ()) :=
  h.trans (.cons (.refl _))

/-- The exchanges say where a computation is. -/
lemma unique (h : After x es y) (h' : After x es z) : y = z := by
  induction h with
  | refl x =>
    cases h'
    rfl
  | cons _ ih =>
    cases h' with
    | cons h' => exact ih h'

/-- A computation has been somewhere after the first exchanges. -/
lemma split (h : After x (es ++ es') z) : ∃ y, After x es y ∧ After y es' z := by
  induction es generalizing x with
  | nil => exact ⟨x, .refl x, h⟩
  | cons e rest ih =>
    cases h with
    | cons h =>
      obtain ⟨y, hfirst, hrest⟩ := ih h
      exact ⟨y, .cons hfirst, hrest⟩

lemma bind (h : After x es y) (f : α → Unit → Step Unit Q R β) :
    After (x.bind f) es (y.bind f) := by
  induction h with
  | refl x => exact .refl _
  | cons _ ih => exact .cons ih

/-- A computation in two parts is in its first part, or has ended that and is in its second one. -/
lemma of_bind {f : α → Unit → Step Unit Q R β} {w : Step Unit Q R β} (h : After (x.bind f) es w) :
    (∃ y, After x es y) ∨
    ∃ first rest a, es = first ++ rest ∧ After x first (.done a ()) ∧ After (f a ()) rest w := by
  induction x generalizing es with
  | done a s => exact .inr ⟨[], es, a, rfl, .refl _, h⟩
  | ask q s resume ih =>
    cases h with
    | refl => exact .inl ⟨_, .refl _⟩
    | cons h =>
      obtain ⟨y, hy⟩ | ⟨first, rest, a, rfl, hfirst, hrest⟩ := ih _ _ h
      · exact .inl ⟨y, .cons hy⟩
      · exact .inr ⟨_ :: first, rest, a, rfl, .cons hfirst, hrest⟩

end After

/-! ## Questions of a kind -/

/-- A computation asks nothing but questions of some kind. -/
def Asks (kind : Q → Prop) : Step σ Q R α → Prop
  | .done _ _ => True
  | .ask q _ resume => kind q ∧ ∀ r s, (resume r s).Asks kind

lemma asks_bind {kind : Q → Prop} {x : Step σ Q R α} {f : α → σ → Step σ Q R β}
    (hx : x.Asks kind) (hf : ∀ a s, (f a s).Asks kind) : (x.bind f).Asks kind := by
  induction x with
  | done a s => exact hf a s
  | ask q s resume ih => exact ⟨hx.1, fun r s => ih r s (hx.2 r s)⟩

lemma Asks.mono {kind kind' : Q → Prop} {x : Step σ Q R α} (h : ∀ q, kind q → kind' q)
    (hx : x.Asks kind) : x.Asks kind' := by
  induction x with
  | done a s => trivial
  | ask q s resume ih => exact ⟨h q hx.1, fun r s => ih r s (hx.2 r s)⟩

lemma Asks.of_after {kind : Q → Prop} {x y : Step Unit Q R α} {es : List ((q : Q) × R q)}
    (h : x.After es y) (hx : x.Asks kind) : (∀ e ∈ es, kind e.1) ∧ y.Asks kind := by
  induction h with
  | refl x => exact ⟨by simp, hx⟩
  | cons _ ih =>
    obtain ⟨hes, hy⟩ := ih (hx.2 _ _)
    refine ⟨?_, hy⟩
    rintro e (_ | ⟨_, he⟩)
    · exact hx.1
    · exact hes e he

end Step

/-! ## Rules -/

/-- Rules of a conversation. -/
structure Rules (P Q : Type) (R : Q → Type) where
  /-- what can be counted on at a place -/
  fits : P → (q : Q) × R q → Prop
  /-- where an exchange leads from a place; one that is not allowed leads nowhere -/
  goes : P → (q : Q) × R q → P → Prop

namespace Rules
variable {P Q : Type} {R : Q → Type} (rules : Rules P Q R)

/-- Exchanges that lead from one place to another one. -/
inductive Path : P → List ((q : Q) × R q) → P → Prop
  | refl (p : P) : Path p [] p
  | cons {p p₁ p₂ : P} {e : (q : Q) × R q} {es : List ((q : Q) × R q)} (hfirst : rules.goes p e p₁)
      (hrest : Path p₁ es p₂) : Path p (e :: es) p₂

variable {rules}

lemma Path.of_append {p p₂ : P} {es es' : List ((q : Q) × R q)} (h : rules.Path p (es ++ es') p₂) :
    ∃ p₁, rules.Path p es p₁ ∧ rules.Path p₁ es' p₂ := by
  induction es generalizing p with
  | nil => exact ⟨p, .refl p, h⟩
  | cons e es ih =>
    cases h with
    | cons hfirst hrest =>
      obtain ⟨p₁, hes, hes'⟩ := ih hrest
      exact ⟨p₁, .cons hfirst hes, hes'⟩

end Rules

namespace Step
variable {σ Q α β P : Type} {R : Q → Type} {rules : Rules P Q R} {p : P}

/-- A computation keeps to the rules from a place on, and is where it should be with its result. -/
def Obeys (rules : Rules P Q R) (post : P → α → Prop) : P → Step σ Q R α → Prop
  | p, .done a _ => post p a
  | p, .ask q _ resume => ∀ r, rules.fits p ⟨q, r⟩ →
      ∃ p', rules.goes p ⟨q, r⟩ p' ∧ ∀ s, (resume r s).Obeys rules post p'

lemma Obeys.bind {post : P → α → Prop} {post' : P → β → Prop} {x : Step σ Q R α}
    {f : α → σ → Step σ Q R β} (hx : x.Obeys rules post p)
    (hf : ∀ p' a, post p' a → ∀ s, (f a s).Obeys rules post' p') :
    (x.bind f).Obeys rules post' p := by
  induction x generalizing p with
  | done a s => exact hf p a hx s
  | ask q s resume ih =>
    intro r hr
    obtain ⟨p', hgoes, hrest⟩ := hx r hr
    exact ⟨p', hgoes, fun s => ih r s (hrest s)⟩

/-- Questions that lead nowhere else are allowed anytime. -/
lemma Asks.obeys {kind : Q → Prop} {x : Step σ Q R α} (hx : x.Asks kind)
    (hp : ∀ q, kind q → ∀ r, rules.goes p ⟨q, r⟩ p) : x.Obeys rules (fun p' _ => p' = p) p := by
  induction x with
  | done a s => rfl
  | ask q s resume ih => exact fun r _ => ⟨p, hp q hx.1 r, fun s => ih r s (hx.2 r s)⟩

/-- If every answer can be counted on, exchanges of a computation that keeps to the rules lead to a
place, from which the rest keeps to them. -/
lemma Obeys.after {post : P → α → Prop} {x y : Step Unit Q R α} {es : List ((q : Q) × R q)}
    (hfits : ∀ p e, rules.fits p e) (h : x.After es y) (hx : x.Obeys rules post p) :
    ∃ p', rules.Path p es p' ∧ y.Obeys rules post p' := by
  induction h generalizing p with
  | refl x => exact ⟨p, .refl p, hx⟩
  | cons _ ih =>
    obtain ⟨p₁, hgoes, hrest⟩ := hx _ (hfits _ _)
    obtain ⟨p₂, hpath, hy⟩ := ih (hrest ())
    exact ⟨p₂, .cons hgoes hpath, hy⟩

end Step

namespace Task
variable {σ Q α β P : Type} {R : Q → Type} {rules : Rules P Q R} {p : P}

/-- A program asks nothing but questions of some kind. -/
def Asks (kind : Q → Prop) (x : Task σ Q R α) : Prop :=
  ∀ s, (x s).Asks kind

/-- A program keeps to the rules. -/
def Obeys (rules : Rules P Q R) (post : P → α → Prop) (p : P) (x : Task σ Q R α) : Prop :=
  ∀ s, (x s).Obeys rules post p

namespace Asks
variable {kind : Q → Prop}

lemma pure (a : α) : (Pure.pure a : Task σ Q R α).Asks kind := fun _ => trivial

lemma ask {q : Q} (hq : kind q) : (Task.ask q : Task σ Q R (R q)).Asks kind :=
  fun _ => ⟨hq, fun _ _ => trivial⟩

lemma bind {x : Task σ Q R α} {f : α → Task σ Q R β} (hx : x.Asks kind)
    (hf : ∀ a, (f a).Asks kind) : (x >>= f).Asks kind :=
  fun s => Step.asks_bind (hx s) hf

lemma mono {kind' : Q → Prop} {x : Task σ Q R α} (hx : x.Asks kind) (h : ∀ q, kind q → kind' q) :
    x.Asks kind' :=
  fun s => (hx s).mono h

/-- Questions that lead nowhere else are allowed anytime. -/
lemma obeys {x : Task σ Q R α} (hx : x.Asks kind) (hp : ∀ q, kind q → ∀ r, rules.goes p ⟨q, r⟩ p) :
    x.Obeys rules (fun p' _ => p' = p) p :=
  fun s => (hx s).obeys hp

end Asks

namespace Obeys

lemma pure {post : P → α → Prop} {a : α} (h : post p a) :
    (Pure.pure a : Task σ Q R α).Obeys rules post p := fun _ => h

lemma bind {post : P → α → Prop} {post' : P → β → Prop} {x : Task σ Q R α} {f : α → Task σ Q R β}
    (hx : x.Obeys rules post p) (hf : ∀ p' a, post p' a → (f a).Obeys rules post' p') :
    (x >>= f).Obeys rules post' p :=
  fun s => (hx s).bind hf

/-- A question, and what follows its answers. -/
lemma ask_bind {post : P → β → Prop} {q : Q} {f : R q → Task σ Q R β}
    (h : ∀ r, rules.fits p ⟨q, r⟩ → ∃ p', rules.goes p ⟨q, r⟩ p' ∧ (f r).Obeys rules post p') :
    (Task.ask q >>= f : Task σ Q R β).Obeys rules post p :=
  fun _ => h

/-- A part that stays where it is. -/
lemma still_bind {post : P → β → Prop} {kind : Q → Prop} {x : Task σ Q R α}
    {f : α → Task σ Q R β} (hx : x.Asks kind) (hp : ∀ q, kind q → ∀ r, rules.goes p ⟨q, r⟩ p)
    (hf : ∀ a, (f a).Obeys rules post p) : (x >>= f).Obeys rules post p :=
  bind (hx.obeys hp) fun _ a hp' => hp' ▸ hf a

end Obeys
end Task
end WorkerHost
