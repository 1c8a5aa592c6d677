import Mathlib.Tactic.Common
import WorkerHost.Json.Reader
import WorkerHost.Json.Writer

/-!
# Reading what was written: the frame

A text is read inside another one, so every statement here says what is left over.
`Takes r text a`: wherever a value may end, `r` reads `a` off the front of `text` and leaves
exactly what follows. That context is needed for numbers, which end only where something else
begins.

* `bind_run`, `map_run`: what a composed reader does, from what its parts do;
* `readAll_eq_ok`: a whole text is read if nothing but blanks is left.
-/

namespace WorkerHost.Json

/-- What may follow a value: nothing, a comma, or the end of a list or of an object. -/
def Stops (rest : List UInt8) : Prop :=
  ∀ b ∈ rest.head?, b = 44 ∨ b = 93 ∨ b = 125

/-- A byte that begins a value: no blank, and not one of those that may follow a value. -/
def Begins (b : UInt8) : Prop :=
  Reader.isBlank b = false ∧ b ≠ 44 ∧ b ≠ 93 ∧ b ≠ 125

instance (b : UInt8) : Decidable (Begins b) :=
  inferInstanceAs (Decidable (_ ∧ _))

lemma stops_nil : Stops [] := by
  intro b heq
  cases heq

lemma stops_comma (rest : List UInt8) : Stops (44 :: rest) := by
  intro b heq
  cases heq
  exact .inl rfl

lemma stops_bracket (rest : List UInt8) : Stops (93 :: rest) := by
  intro b heq
  cases heq
  exact .inr (.inl rfl)

lemma stops_brace (rest : List UInt8) : Stops (125 :: rest) := by
  intro b heq
  cases heq
  exact .inr (.inr rfl)

namespace Reader
variable {α β σ : Type} {r : Reader α} {s s' text rest : List UInt8} {a : α}

/-! ## Running a reader -/

lemma bind_run {f : α → Reader β} (h : r s = .ok (a, s')) : (r >>= f) s = f a s' := by
  show (r s >>= fun p => f p.1 p.2) = _
  rw [h]
  rfl

lemma bind_run_error {f : α → Reader β} {e : Fault} (h : r s = .error e) :
    (r >>= f) s = .error e := by
  show (r s >>= fun p => f p.1 p.2) = _
  rw [h]
  rfl

lemma map_run {f : α → β} (h : r s = .ok (a, s')) : (f <$> r) s = .ok (f a, s') := by
  rw [← bind_pure_comp, bind_run h]
  rfl

lemma map_eq_ok {f : α → β} {b : β} :
    (f <$> r) s = .ok (b, s') ↔ ∃ a, r s = .ok (a, s') ∧ f a = b := by
  cases hr : r s with
  | error e =>
    rw [← bind_pure_comp, bind_run_error hr]
    constructor
    · intro heq
      cases heq
    · intro h
      obtain ⟨a, ⟨⟩, -⟩ := h
  | ok p =>
    rw [map_run hr]
    constructor
    · intro heq
      cases heq
      exact ⟨p.1, rfl, rfl⟩
    · intro h
      obtain ⟨a, ⟨⟩, rfl⟩ := h
      rfl

/-- Where the next byte is no blank, looking past blanks is looking at it. -/
lemma peekToken_cons {b : UInt8} (hb : isBlank b = false) :
    peekToken (b :: s) = .ok (some b, b :: s) := by
  simp [peekToken, hb]

lemma colon_cons : colon (58 :: s) = .ok ((), s) := rfl

lemma endList_cons : endList (93 :: s) = .ok ((), s) := rfl

/-! ## Taking a text off the front -/

/-- The reader takes exactly the text off the front, wherever a value may end, and gives the
value. -/
def Takes (r : Reader α) (text : List UInt8) (a : α) : Prop :=
  ∀ rest, Stops rest → r (text ++ rest) = .ok (a, rest)

lemma Takes.map (h : Takes r text a) (f : α → β) : Takes (f <$> r) text (f a) := by
  intro rest hrest
  exact map_run (h rest hrest)

/-- A text is read as a whole if nothing but blanks remains. -/
lemma readAll_eq_ok : Reader.readAll r text = .ok a ↔
    ∃ s', r text = .ok (a, s') ∧ s'.dropWhile isBlank = [] := by
  have hrun : Reader.readAll r text = Prod.fst <$> (r >>= fun a => do finish; return a) text := rfl
  rw [hrun]
  cases hr : r text with
  | error e =>
    rw [bind_run_error hr]
    constructor
    · intro heq
      cases heq
    · intro h
      obtain ⟨s', ⟨⟩, -⟩ := h
  | ok p =>
    obtain ⟨b, s'⟩ := p
    rw [bind_run hr]
    cases hrest : s'.dropWhile isBlank with
    | nil =>
      have hfinish : finish s' = .ok ((), []) := by
        unfold finish
        rw [bind_run (show peekToken s' = .ok (none, []) by simp [peekToken, hrest])]
        rfl
      rw [bind_run hfinish]
      constructor
      · intro heq
        cases heq
        exact ⟨s', rfl, hrest⟩
      · intro h
        obtain ⟨s₁, ⟨⟩, -⟩ := h
        rfl
    | cons c t =>
      have hfinish : finish s' = .error ⟨.trailingCharacters, t.length⟩ := by
        unfold finish
        rw [bind_run (show peekToken s' = .ok (some c, c :: t) by simp [peekToken, hrest])]
        rfl
      rw [bind_run_error hfinish]
      constructor
      · intro heq
        cases heq
      · intro h
        obtain ⟨s₁, ⟨⟩, hnil⟩ := h
        rw [hrest] at hnil
        cases hnil

/-- A reader of a whole text. -/
lemma Takes.readAll (h : Takes r text a) : Reader.readAll r text = .ok a := by
  have hr := h [] stops_nil
  rw [List.append_nil] at hr
  exact readAll_eq_ok.2 ⟨[], hr, rfl⟩

end Reader
end WorkerHost.Json
