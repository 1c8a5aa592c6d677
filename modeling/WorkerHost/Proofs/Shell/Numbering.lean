import WorkerHost.Proofs.Shell.Conversation

/-!
# Scripts and the numbers of their lines

A shell looks at the commands of a script. Lines without a command are passed over, and the number
of a line is seen in the messages of syntax errors only. So scripts with the same commands run
alike, `coupled_runLines`.

`Coupled` says this for every console at once: the two runs are one computation with two results.
-/

namespace WorkerHost

/-! ## One computation with two results -/

/-- Two computations are one computation with two results, which a relation holds between. -/
def Coupled {m : Type → Type} [Functor m] {α β : Type} (P : α → β → Prop) (x : m α) (y : m β) :
    Prop :=
  ∃ z : m {p : α × β // P p.1 p.2}, (·.1.1) <$> z = x ∧ (·.1.2) <$> z = y

namespace Coupled
variable {m : Type → Type} [Monad m] [LawfulMonad m] {α β γ δ : Type} {P : α → β → Prop}
  {Q : γ → δ → Prop}

lemma pure {a : α} {b : β} (h : P a b) : Coupled P (pure a : m α) (Pure.pure b) :=
  ⟨Pure.pure ⟨(a, b), h⟩, map_pure _ _, map_pure _ _⟩

lemma refl {P : α → α → Prop} (h : ∀ a, P a a) (x : m α) : Coupled P x x :=
  ⟨(fun a => ⟨(a, a), h a⟩) <$> x, by simp, by simp⟩

lemma symm {x : m α} {y : m β} (h : Coupled P x y) : Coupled (fun b a => P a b) y x := by
  obtain ⟨z, rfl, rfl⟩ := h
  exact ⟨(fun p => ⟨p.1.swap, p.2⟩) <$> z, by simp, by simp⟩

lemma mono {P' : α → β → Prop} {x : m α} {y : m β} (h : Coupled P x y)
    (hP : ∀ a b, P a b → P' a b) : Coupled P' x y := by
  obtain ⟨z, rfl, rfl⟩ := h
  exact ⟨(fun p => ⟨p.1, hP _ _ p.2⟩) <$> z, by simp, by simp⟩

lemma bind {x : m α} {y : m β} {f : α → m γ} {g : β → m δ} (hx : Coupled P x y)
    (hf : ∀ a b, P a b → Coupled Q (f a) (g b)) : Coupled Q (x >>= f) (y >>= g) := by
  obtain ⟨z, rfl, rfl⟩ := hx
  -- each pair of results that the first part can have goes on as one computation
  choose w hleft hright using fun p : {p : α × β // P p.1 p.2} => hf p.1.1 p.1.2 p.2
  refine ⟨z >>= w, ?_, ?_⟩
  · rw [map_bind, bind_map_left]
    exact bind_congr hleft
  · rw [map_bind, bind_map_left]
    exact bind_congr hright

/-- Two such computations have the same exchanges. -/
lemma exchanges {x : Task Unit ConsoleAsk ConsoleAsk.Answer α}
    {y : Task Unit ConsoleAsk ConsoleAsk.Answer β} (h : Coupled P x y) {es : List ConsoleExchange}
    {a : α} (hx : x.Exchanges es a) : ∃ b, y.Exchanges es b ∧ P a b := by
  obtain ⟨z, rfl, rfl⟩ := h
  obtain ⟨first, p, rest, rfl, hz, hrest⟩ := Task.Exchanges.of_bind hx
  cases hrest
  exact ⟨p.1.2, hz.bind (.pure _), p.2⟩

end Coupled

namespace Shell
variable {m : Type → Type} [Monad m] {α : Type}

/-! ## Errors but for numbers -/

/-- Errors are the same, but for the number of the line in the message of a syntax error. -/
inductive SameError : InterpreterError → InterpreterError → Prop
  | same (e : InterpreterError) : SameError e e
  | renumbered (line line' : ℕ) (message : String) :
    SameError (syntaxError line message) (syntaxError line' message)

/-- The ends of runs are the same but for such a number: the value or error, and the shell. -/
inductive SameEnd : Except InterpreterError α × Shell → Except InterpreterError α × Shell → Prop
  | ok (a : α) (s : Shell) : SameEnd (.ok a, s) (.ok a, s)
  | error {e e' : InterpreterError} (h : SameError e e') (s : Shell) :
    SameEnd (.error e, s) (.error e', s)

lemma SameEnd.refl (p : Except InterpreterError α × Shell) : SameEnd p p := by
  obtain ⟨e | a, s⟩ := p
  · exact .error (.same e) s
  · exact .ok a s

lemma SameError.symm {e e' : InterpreterError} (h : SameError e e') : SameError e' e := by
  cases h with
  | same => exact .same e
  | renumbered line line' message => exact .renumbered line' line message

lemma SameEnd.symm {p q : Except InterpreterError α × Shell} (h : SameEnd p q) : SameEnd q p := by
  cases h with
  | ok a s => exact .ok a s
  | error h s => exact .error h.symm s

lemma SameEnd.shell_eq {p q : Except InterpreterError α × Shell} (h : SameEnd p q) :
    q.2 = p.2 := by
  cases h <;> rfl

section
variable [LawfulMonad m]

/-- Steps of a line that are the same but for the number of the line. -/
def renumbered (m : Type → Type) [Monad m] [LawfulMonad m] : MonadRel (LineM m) (LineM m) where
  rel x y := ∀ s, Coupled SameEnd (x.run.run s) (y.run.run s)
  pure a s := .pure (.ok a s)
  bind {_ _ x y f g} hx hf s := by
    refine Coupled.bind (hx s) ?_
    -- after an error nothing is done, and without one both go on with the same value and shell
    rintro _ _ (⟨a, s⟩ | ⟨h, s⟩)
    · exact hf a s
    · exact .pure (.error h s)

variable (c : Console m) (line line' : ℕ)

lemma renumbered_refl (x : LineM m α) : (renumbered m).rel x x :=
  fun s => .refl SameEnd.refl (x.run.run s)

lemma renumbered_syntaxError (message : String) :
    (renumbered m).rel (throw (syntaxError line message) : LineM m α)
      (throw (syntaxError line' message)) :=
  fun s => .pure (.error (.renumbered line line' message) s)

/-- A check that fails with a syntax error. -/
lemma renumbered_guard {p : Prop} [Decidable p] (message : String) (x : PUnit → LineM m α) :
    (renumbered m).rel (if p then throw (syntaxError line message) >>= x else x ())
      (if p then throw (syntaxError line' message) >>= x else x ()) := by
  split
  · exact (renumbered m).bind (renumbered_syntaxError line line' message) fun _ => renumbered_refl _
  · exact renumbered_refl _

/-- What a path leads to does not depend on the line that it stands in. -/
lemma lookup_cases (s : Shell) (path : List Char) :
    (∃ message, ∀ n, lookup s n path = .error (syntaxError n message)) ∨
      ∃ r, ∀ n, lookup s n path = r := by
  unfold lookup
  cases Text.splitOnce (· == '.') path with
  | none => exact .inl ⟨_, fun _ => rfl⟩
  | some cut => exact .inr ⟨_, fun _ => rfl⟩

lemma renumbered_callFunction (rest : List Char) :
    (renumbered m).rel (callFunction c line rest) (callFunction c line' rest) := by
  unfold callFunction
  cases Text.words rest with
  | nil => exact renumbered_syntaxError line line' _
  | cons path args =>
    refine (renumbered m).bind (renumbered_refl get) fun s => ?_
    obtain ⟨message, hfails⟩ | ⟨r, hlookup⟩ := lookup_cases s path
    · rw [hfails, hfails]
      exact renumbered_syntaxError line line' message
    · rw [hlookup, hlookup]
      exact renumbered_refl _

lemma renumbered_input (rest : List Char) :
    (renumbered m).rel (input c line rest) (input c line' rest) := by
  unfold input
  split
  exact renumbered_guard line line' _ _

lemma renumbered_execute (cmd rest : List Char) :
    (renumbered m).rel (execute c line cmd rest) (execute c line' cmd rest) := by
  unfold execute
  split
  case h_4 => exact renumbered_guard line line' _ _
  case h_5 =>
    exact (renumbered m).bind (renumbered_input c line line' rest) fun _ => renumbered_refl _
  case h_6 =>
    exact (renumbered m).bind (renumbered_callFunction c line line' rest) fun _ => renumbered_refl _
  case h_8 => exact renumbered_syntaxError line line' _
  -- the other commands do not look at the number
  all_goals exact renumbered_refl _

end

/-! ## Commands -/

/-- Does a command with its variables replaced. -/
def executeCommand (c : Console m) (line : ℕ) (cmd rest : List Char) : LineM m (Option Value) := do
  match (← get).expand rest with
  | .error e => throw e
  | .ok rest => execute c line cmd rest

/-- The commands of lines with the numbers of these lines, which go up from a first one. -/
def commandsFrom : ℕ → List (List Char) → List (ℕ × List Char × List Char)
  | _, [] => []
  | n, line :: rest =>
    match command? line with
    | none => commandsFrom (n + 1) rest
    | some command => (n, command) :: commandsFrom (n + 1) rest

/-- Does commands in turn and keeps the last value. -/
def executeCommands (c : Console m) :
    Value → List (ℕ × List Char × List Char) → LineM m Value
  | last, [] => return last
  | last, (n, cmd, rest) :: more => do
    let v ← executeCommand c n cmd rest
    executeCommands c (v.getD last) more

lemma map_commandsFrom (n : ℕ) (ls : List (List Char)) :
    (commandsFrom n ls).map (·.2) = ls.filterMap command? := by
  induction ls generalizing n with
  | nil => rfl
  | cons line rest ih =>
    rw [commandsFrom]
    cases hline : command? line with
    | none => rw [List.filterMap_cons_none hline, ih]
    | some command => rw [List.filterMap_cons_some hline, List.map_cons, ih]

section
variable [LawfulMonad m] (c : Console m)

lemma executeLines_eq (n : ℕ) (last : Value) (ls : List (List Char)) :
    executeLines c n last ls = executeCommands c last (commandsFrom n ls) := by
  induction ls generalizing n last with
  | nil => rfl
  | cons line rest ih =>
    rw [executeLines, executeLine, commandsFrom]
    cases command? line with
    | none =>
      -- the line only counts
      rw [pure_bind]
      exact ih (n + 1) last
    | some command => exact bind_congr fun v => ih (n + 1) (v.getD last)

lemma renumbered_executeCommand (line line' : ℕ) (cmd rest : List Char) :
    (renumbered m).rel (executeCommand c line cmd rest) (executeCommand c line' cmd rest) := by
  refine (renumbered m).bind (renumbered_refl get) fun s => ?_
  cases s.expand rest with
  | error e => exact renumbered_refl _
  | ok rest => exact renumbered_execute c line line' cmd rest

lemma renumbered_executeCommands (last : Value) {cs cs' : List (ℕ × List Char × List Char)}
    (h : cs.map (·.2) = cs'.map (·.2)) :
    (renumbered m).rel (executeCommands c last cs) (executeCommands c last cs') := by
  induction cs generalizing cs' last with
  | nil =>
    obtain rfl := List.map_eq_nil_iff.1 h.symm
    exact renumbered_refl _
  | cons command more ih =>
    obtain ⟨⟨line', cmd, rest⟩, more', rfl, heq, hmore⟩ := List.map_eq_cons_iff.1 h.symm
    obtain ⟨line, cmd, rest⟩ := command
    cases heq
    exact (renumbered m).bind (renumbered_executeCommand c line line' cmd rest)
      fun v => ih _ hmore.symm

end

/-! ## Runs -/

/-- Runs lines in a shell as a script: their last value or error, and the shell after it. -/
def runLines (c : Console m) (ls : List (List Char)) (s : Shell) :
    m (Except InterpreterError Value × Shell) :=
  let script : LineM m Value := do
    let last ← executeLines c 1 .null ls
    stream c.flush
    stream c.flushError
    return last
  script.run.run s

/-- A script is run as its lines. -/
lemma run_eq (c : Console m) (code : String) (s : Shell) :
    run c code s = runLines c (Text.lines code.toList) s := rfl

/-- Lines with the same commands run alike, on every console. -/
theorem coupled_runLines [LawfulMonad m] {ls ls' : List (List Char)}
    (h : ls.filterMap command? = ls'.filterMap command?) (c : Console m) (s : Shell) :
    Coupled SameEnd (runLines c ls s) (runLines c ls' s) := by
  -- the flushes at the end are the same, so only the lines matter
  refine (renumbered m).bind ?_ (fun last => renumbered_refl _) s
  rw [executeLines_eq, executeLines_eq]
  refine renumbered_executeCommands c .null ?_
  rw [map_commandsFrom, map_commandsFrom, h]

end Shell
end WorkerHost
