import WorkerHost.Proofs.Shell.Numbering
import WorkerHost.Proofs.Text.Lines
import WorkerHost.Stream.Memory

/-!
# Scripts one after the other

A script is its lines one after the other. A line that fails leaves the shell as it was,
`cautious_executeLine`, so a script that fails at some line ends with the shell that the lines
before it have made, and the lines after it do nothing. Two scripts with a newline between them have
the lines of the one and then those of the other: they do what the lines of the first do and then,
if these succeed, what the second script does, `Shell.runsInTurn`.

A script of its own also flushes both streams at its end. Where that fails, the second of two
scripts is not run, though it would be as part of one, `Shell.not_always_one_run`.
-/

namespace WorkerHost

open Text

/-! ## What holds of all results -/

/-- All results that a computation can have satisfy the predicate. -/
def Ensures {m : Type → Type} [Functor m] {α : Type} (P : α → Prop) (x : m α) : Prop :=
  ∃ z : m {a : α // P a}, (·.1) <$> z = x

namespace Ensures
variable {m : Type → Type} [Monad m] [LawfulMonad m] {α β : Type} {P P' : α → Prop} {Q : β → Prop}

lemma pure {a : α} (h : P a) : Ensures P (pure a : m α) :=
  ⟨Pure.pure ⟨a, h⟩, map_pure _ _⟩

lemma trivial (x : m α) : Ensures (fun _ => True) x :=
  ⟨(fun a => ⟨a, .intro⟩) <$> x, by simp⟩

lemma bind {x : m α} {f : α → m β} (hx : Ensures P x) (hf : ∀ a, P a → Ensures Q (f a)) :
    Ensures Q (x >>= f) := by
  obtain ⟨z, rfl⟩ := hx
  choose w hw using fun p : {a : α // P a} => hf p.1 p.2
  refine ⟨z >>= w, ?_⟩
  rw [map_bind, bind_map_left]
  exact bind_congr hw

lemma mono {x : m α} (hx : Ensures P x) (h : ∀ a, P a → P' a) : Ensures P' x := by
  obtain ⟨z, rfl⟩ := hx
  exact ⟨(fun p => ⟨p.1, h p.1 p.2⟩) <$> z, by simp⟩

/-- Computations that go on alike from all results that there can be. -/
lemma congr_bind {x : m α} {f g : α → m β} (hx : Ensures P x) (h : ∀ a, P a → f a = g a) :
    x >>= f = x >>= g := by
  obtain ⟨z, rfl⟩ := hx
  rw [bind_map_left, bind_map_left]
  exact bind_congr fun p => h p.1 p.2

end Ensures

namespace Shell
variable {m : Type → Type} [Monad m] {α β : Type}

/-! ## Lines that fail -/

section
variable [LawfulMonad m]

/-- The steps leave the shell as it is, however they end. -/
def Still (x : LineM m α) : Prop :=
  ∀ s, Ensures (fun p => p.2 = s) (x.run.run s)

/-- The steps leave the shell as it is if they fail. -/
def Cautious (x : LineM m α) : Prop :=
  ∀ s, Ensures (fun p => ∀ e, p.1 = .error e → p.2 = s) (x.run.run s)

lemma Still.cautious {x : LineM m α} (h : Still x) : Cautious x :=
  fun s => (h s).mono fun _ hp _ _ => hp

lemma still_pure (a : α) : Still (pure a : LineM m α) :=
  fun _ => .pure rfl

lemma still_throw (e : InterpreterError) : Still (throw e : LineM m α) :=
  fun _ => .pure rfl

lemma run_get (s : Shell) : (get : LineM m Shell).run.run s = pure (.ok s, s) := by
  simp [get, getThe, MonadStateOf.get, liftM, monadLift, MonadLift.monadLift, ExceptT.lift,
    ExceptT.run, ExceptT.mk, StateT.run, StateT.get, Functor.map, StateT.map]

lemma still_get : Still (get : LineM m Shell) := by
  intro s
  rw [run_get]
  exact .pure rfl

lemma still_lift (x : m α) : Still (liftM x : LineM m α) := by
  intro s
  have hlift : (liftM x : LineM m α).run.run s = x >>= fun a => pure (.ok a, s) := by
    simp [liftM, monadLift, MonadLift.monadLift, ExceptT.lift, ExceptT.run, ExceptT.mk, StateT.run,
      StateT.lift, Functor.map, StateT.map]
  rw [hlift]
  exact (Ensures.trivial x).bind fun a _ => .pure rfl

lemma cautious_modify (f : Shell → Shell) : Cautious (modify f : LineM m PUnit) := by
  intro s
  have hmodify : (modify f : LineM m PUnit).run.run s = pure (.ok (), f s) := by
    simp [modify, modifyGet, MonadStateOf.modifyGet, monadLift, MonadLift.monadLift, ExceptT.lift,
      ExceptT.run, ExceptT.mk, StateT.run, StateT.modifyGet, Functor.map, StateT.map]
  rw [hmodify]
  exact .pure nofun

/-- What goes before leaves the shell alone. -/
lemma Still.bind_cautious {x : LineM m α} {f : α → LineM m β} (hx : Still x)
    (hf : ∀ a, Cautious (f a)) : Cautious (x >>= f) := by
  intro s
  refine (hx s).bind ?_
  rintro ⟨a | e, _⟩ rfl
  · exact .pure fun _ _ => rfl
  · exact hf e _

lemma Still.bind {x : LineM m α} {f : α → LineM m β} (hx : Still x)
    (hf : ∀ a, Still (f a)) : Still (x >>= f) := by
  intro s
  refine (hx s).bind ?_
  rintro ⟨a | e, _⟩ rfl
  · exact .pure rfl
  · exact hf e _

/-- What comes after does not fail. -/
lemma Cautious.bind_pure {x : LineM m α} (hx : Cautious x) (f : α → β) :
    Cautious (x >>= fun a => pure (f a)) := by
  intro s
  refine (hx s).bind ?_
  rintro ⟨e | a, s'⟩ hp
  · exact .pure fun _ _ => hp e rfl
  · exact .pure nofun

/-- A check leaves the shell alone. -/
lemma cautious_guard {p : Prop} [Decidable p] (e : InterpreterError) {x : PUnit → LineM m α}
    (hx : Cautious (x ())) : Cautious (if p then throw e >>= x else x ()) := by
  split
  · intro s
    refine Ensures.bind (P := (· = (.error e, s))) (.pure rfl) ?_
    rintro _ rfl
    exact .pure fun _ _ => rfl
  · exact hx

variable (c : Console m) (line : ℕ)

lemma still_stream (x : m (Except StreamError α)) : Still (stream x) := by
  refine (still_lift x).bind fun r => ?_
  cases r with
  | ok a => exact still_pure a
  | error e => exact still_throw _

lemma still_putBytes (bytes : List UInt8) : Still (putBytes c bytes) := by
  induction bytes with
  | nil => exact still_pure ()
  | cons b rest ih => exact (still_stream _).bind fun _ => ih

lemma cautious_callFunction (rest : List Char) : Cautious (callFunction c line rest) := by
  unfold callFunction
  cases Text.words rest with
  | nil => exact (still_throw _).cautious
  | cons path args =>
    refine still_get.bind_cautious fun s => ?_
    cases lookup s line path with
    | error e => exact (still_throw e).cautious
    | ok f =>
      refine (still_lift _).bind_cautious fun answer => ?_
      cases answer with
      | error text => exact (still_throw _).cautious
      -- the variable is assigned when nothing can fail any more
      | ok v => exact (still_lift _).bind_cautious fun text =>
          (cautious_modify _).bind_pure fun _ => v

lemma cautious_input (rest : List Char) : Cautious (input c line rest) := by
  unfold input
  split
  refine cautious_guard _ ?_
  refine (still_stream _).bind_cautious fun _ => (still_stream _).bind_cautious fun answer => ?_
  cases answer with
  | some text => exact cautious_modify _
  | none => exact (still_throw _).cautious

lemma cautious_execute (cmd rest : List Char) : Cautious (execute c line cmd rest) := by
  unfold execute
  split
  · exact ((still_stream _).bind fun _ => still_pure none).cautious
  · exact ((still_stream _).bind fun _ => still_pure none).cautious
  · exact ((still_putBytes c _).bind fun _ => still_pure none).cautious
  · exact cautious_guard _ ((cautious_modify _).bind_pure fun _ => none)
  · exact (cautious_input c line rest).bind_pure fun _ => none
  · exact (cautious_callFunction c line rest).bind_pure some
  · exact (still_throw _).cautious
  · exact (still_throw _).cautious

/-- A line that fails leaves the shell as it was. -/
theorem cautious_executeLine (raw : List Char) : Cautious (executeLine c line raw) := by
  unfold executeLine
  cases command? raw with
  | none => exact (still_pure none).cautious
  | some command =>
    obtain ⟨cmd, rest⟩ := command
    refine still_get.bind_cautious fun s => ?_
    cases s.expand rest with
    | error e => exact (still_throw e).cautious
    | ok rest => exact cautious_execute c line cmd rest

end

/-! ## Scripts as their lines -/

/-- The end of a script: both streams are flushed, and it has the value of its last call. -/
def finish (c : Console m) (last : Value) : LineM m Value := do
  stream c.flush
  stream c.flushError
  return last

section
variable [LawfulMonad m] (c : Console m)

/-- Lines are done one after the other, each with its number, until one fails. -/
lemma executeLines_eq_foldlM (n : ℕ) (last : Value) (ls : List (List Char)) :
    executeLines c n last ls = (ls.zipIdx n).foldlM
      (fun last line => do return (← executeLine c line.2 line.1).getD last) last := by
  induction ls generalizing n last with
  | nil => rfl
  | cons line rest ih =>
    rw [executeLines, List.zipIdx_cons, List.foldlM_cons, bind_assoc]
    refine bind_congr fun v => ?_
    rw [pure_bind, ih]

lemma executeLines_append (n : ℕ) (last : Value) (ls ls' : List (List Char)) :
    executeLines c n last (ls ++ ls') =
      executeLines c n last ls >>= fun last => executeLines c (n + ls.length) last ls' := by
  induction ls generalizing n last with
  | nil =>
    rw [executeLines, pure_bind]
    rfl
  | cons line rest ih =>
    rw [List.cons_append, executeLines, executeLines, bind_assoc]
    refine bind_congr fun v => ?_
    rw [ih, List.length_cons, Nat.add_assoc, Nat.add_comm 1]

/-- An empty line does nothing. -/
lemma executeLines_concat_nil (n : ℕ) (last : Value) (ls : List (List Char)) :
    executeLines c n last (ls ++ [[]]) = executeLines c n last ls := by
  have hempty (k : ℕ) (v : Value) : executeLines c k v [[]] = pure v := by
    rw [executeLines, executeLine]
    exact pure_bind _ _
  rw [executeLines_append]
  simp only [hempty]
  exact bind_pure _

/-- Lines up to some line: if that fails, the shell is the one that the lines before it have made,
and those after it are not done. -/
lemma run_executeLines_append_cons (n : ℕ) (last : Value) (front : List (List Char))
    (line : List Char) (back : List (List Char)) (f : Value → LineM m β) (s : Shell) :
    (executeLines c n last (front ++ line :: back) >>= f).run.run s =
      (executeLines c n last front).run.run s >>= fun
      | (.error e, s₁) => pure (.error e, s₁)
      | (.ok last, s₁) => (executeLine c (n + front.length) line).run.run s₁ >>= fun
        | (.error e, _) => pure (.error e, s₁)
        | (.ok v, s₂) =>
          (executeLines c (n + front.length + 1) (v.getD last) back >>= f).run.run s₂ := by
  rw [executeLines_append, bind_assoc]
  simp only [ExceptT.run_bind, StateT.run_bind]
  refine bind_congr fun p => ?_
  obtain ⟨e | last, s₁⟩ := p
  · rfl
  · simp only [executeLines, bind_assoc, ExceptT.run_bind, StateT.run_bind]
    refine (cautious_executeLine c _ line s₁).congr_bind ?_
    rintro ⟨e | v, s₂⟩ hfails
    -- the shell after the line is the one before it
    · obtain rfl := hfails e rfl
      exact pure_bind _ _
    · rfl

end

/-! ## Two scripts -/

/-- A script has a line that calls a function. -/
def MakesCall (code : String) : Prop :=
  ∃ line ∈ lines code.toList, ∃ rest, command? line = some ("call".toList, rest)

/-- The ends of runs are the same but for the number of the line in the message of an error, and
the values are related. -/
inductive EndsAlike (V : Value → Value → Prop) :
    Except InterpreterError Value × Shell → Except InterpreterError Value × Shell → Prop
  | ok {v v' : Value} (h : V v v') (s : Shell) : EndsAlike V (.ok v, s) (.ok v', s)
  | error {e e' : InterpreterError} (h : SameError e e') (s : Shell) :
    EndsAlike V (.error e, s) (.error e', s)

lemma EndsAlike.mono {V V' : Value → Value → Prop} (hV : ∀ v v', V v v' → V' v v')
    {p q : Except InterpreterError Value × Shell} (h : EndsAlike V p q) : EndsAlike V' p q := by
  cases h with
  | ok h s => exact .ok (hV _ _ h) s
  | error h s => exact .error h s

lemma EndsAlike.shell_eq {V : Value → Value → Prop}
    {p q : Except InterpreterError Value × Shell} (h : EndsAlike V p q) : q.2 = p.2 := by
  cases h <;> rfl

lemma SameEnd.endsAlike {V : Value → Value → Prop} (hV : ∀ v, V v v)
    {p q : Except InterpreterError Value × Shell} (h : SameEnd p q) : EndsAlike V p q := by
  cases h with
  | ok v s => exact .ok (hV v) s
  | error h s => exact .error h s

/-- The ends of two runs that a script is the last part of: the values are the same if it makes a
call. -/
abbrev EndsAfter (code : String) := EndsAlike fun v v' => MakesCall code → v = v'

/-- Does the lines of a script and then, if they succeed, another script. -/
def linesThen (c : Console m) (code next : String) (s : Shell) :
    m (Except InterpreterError Value × Shell) :=
  (executeLines c 1 .null (lines code.toList) >>= fun _ => script c next).run.run s

section
variable [LawfulMonad m] (c : Console m)

/-- Steps have a value if those that come last do, whatever goes before. -/
lemma exists_bind_eq_map {x : LineM m α} {f : α → LineM m (Option β)}
    (h : ∀ a, ∃ y : LineM m β, f a = some <$> y) : ∃ y : LineM m β, x >>= f = some <$> y := by
  choose y hy using h
  refine ⟨x >>= y, ?_⟩
  rw [map_bind]
  exact bind_congr hy

/-- A call that does not fail has a value. -/
lemma executeCommand_call (line : ℕ) (rest : List Char) :
    ∃ x : LineM m Value, executeCommand c line "call".toList rest = some <$> x := by
  rw [executeCommand]
  refine exists_bind_eq_map fun s => ?_
  cases s.expand rest with
  | error e =>
    refine ⟨throw e, ExceptT.ext ?_⟩
    simp
  | ok rest =>
    refine ⟨callFunction c line rest, ?_⟩
    rw [map_eq_pure_bind]
    rfl

/-- What there was before a call does not matter. -/
lemma executeCommands_call (last last' : Value) (line : ℕ) (rest : List Char)
    (more : List (ℕ × List Char × List Char)) :
    executeCommands c last ((line, "call".toList, rest) :: more) =
      executeCommands c last' ((line, "call".toList, rest) :: more) := by
  obtain ⟨x, hx⟩ := executeCommand_call c line rest
  rw [executeCommands, executeCommands, hx, bind_map_left, bind_map_left]
  rfl

/-- Commands from different values before them: if one of them is a call, these do not matter. -/
lemma coupled_executeCommands {cs cs' : List (ℕ × List Char × List Char)}
    (h : cs.map (·.2) = cs'.map (·.2)) (last last' : Value) (s : Shell) :
    Coupled (EndsAlike fun v v' => (∃ command ∈ cs, command.2.1 = "call".toList) → v = v')
      ((executeCommands c last cs).run.run s) ((executeCommands c last' cs').run.run s) := by
  induction cs generalizing cs' last last' s with
  | nil =>
    obtain rfl := List.map_eq_nil_iff.1 h.symm
    exact .pure (.ok (by simp) s)
  | cons command more ih =>
    obtain ⟨line, cmd, rest⟩ := command
    by_cases hcall : cmd = "call".toList
    · subst hcall
      rw [executeCommands_call c last last']
      exact (renumbered_executeCommands c last' h s).mono fun _ _ hend =>
        hend.endsAlike fun v _ => rfl
    · obtain ⟨⟨line', cmd, rest⟩, more', rfl, heq, hmore⟩ := List.map_eq_cons_iff.1 h.symm
      cases heq
      refine Coupled.bind (renumbered_executeCommand c line line' cmd rest s) ?_
      rintro _ _ (⟨v, s⟩ | ⟨hsame, s⟩)
      · refine (ih hmore.symm (v.getD last) (v.getD last') s).mono fun _ _ hend => ?_
        -- the call is one of the commands after this one
        refine hend.mono fun _ _ hV hmem => hV ?_
        exact ((List.exists_mem_cons_iff ..).1 hmem).resolve_left hcall
      · exact .pure (.error hsame s)

lemma exists_call_commandsFrom {code : String} (h : MakesCall code) (n : ℕ) :
    ∃ command ∈ commandsFrom n (lines code.toList), command.2.1 = "call".toList := by
  obtain ⟨line, hline, rest, hcall⟩ := h
  have hmem : ("call".toList, rest) ∈ (commandsFrom n (lines code.toList)).map (·.2) := by
    rw [map_commandsFrom]
    exact List.mem_filterMap.2 ⟨line, hline, hcall⟩
  obtain ⟨command, hmem, hcommand⟩ := List.mem_map.1 hmem
  exact ⟨command, hmem, congrArg (·.1) hcommand⟩

/-- The end of a script leads from one value to the next as it stands. -/
lemma coupled_finish {V : Value → Value → Prop} {last last' : Value} (hV : V last last')
    (s : Shell) :
    Coupled (EndsAlike V) ((finish c last).run.run s) ((finish c last').run.run s) := by
  have hfinish (last : Value) :
      finish c last = (stream c.flush >>= fun _ => stream c.flushError) >>= fun _ => pure last := by
    rw [bind_assoc]
    rfl
  rw [hfinish, hfinish]
  refine Coupled.bind (renumbered_refl _ s) ?_
  rintro _ _ (⟨_, s⟩ | ⟨hsame, s⟩)
  · exact .pure (.ok hV s)
  · exact .pure (.error hsame s)

/-- A script goes on after other lines as it begins, but for the numbers of its lines and the value
that it has without a call. -/
lemma coupled_continued (code : String) (n : ℕ) (last : Value) (s : Shell) :
    Coupled (EndsAfter code)
      ((executeLines c n last (lines code.toList) >>= finish c).run.run s)
      ((script c code).run.run s) := by
  have hcommands : (commandsFrom n (lines code.toList)).map (·.2) =
      (commandsFrom 1 (lines code.toList)).map (·.2) := by
    rw [map_commandsFrom, map_commandsFrom]
  have hlines := coupled_executeCommands c hcommands last .null s
  rw [← executeLines_eq, ← executeLines_eq] at hlines
  refine Coupled.bind hlines ?_
  rintro _ _ (⟨hV, s⟩ | ⟨hsame, s⟩)
  · exact coupled_finish c (fun hcall => hV (exists_call_commandsFrom hcall n)) s
  · exact .pure (.error hsame s)

/-- What a script does that comes to some line. -/
lemma run_of_lines_eq {code : String} {front back : List (List Char)} {line : List Char}
    (h : lines code.toList = front ++ line :: back) (s : Shell) :
    run c code s = (executeLines c 1 .null front).run.run s >>= fun
    | (.error e, s₁) => pure (.error e, s₁)
    | (.ok last, s₁) => (executeLine c (1 + front.length) line).run.run s₁ >>= fun
      | (.error e, _) => pure (.error e, s₁)
      | (.ok v, s₂) => (executeLines c (1 + front.length + 1) (v.getD last) back >>=
          finish c).run.run s₂ := by
  have hrun : run c code s =
      (executeLines c 1 .null (lines code.toList) >>= finish c).run.run s := rfl
  rw [hrun, h]
  exact run_executeLines_append_cons c 1 .null front line back (finish c) s

/-- The lines of two scripts with a newline between them are those of the one and of the other. -/
lemma executeLines_seam {a : String} (ha : a.toList.getLast? ≠ some '\r') (b : String) :
    executeLines c 1 .null (lines (a ++ "\n" ++ b).toList) =
      executeLines c 1 .null (lines a.toList) >>= fun last =>
        executeLines c (1 + (a.toList.splitOn '\n').length) last (lines b.toList) := by
  have htext : (a ++ "\n" ++ b).toList = a.toList ++ '\n' :: b.toList := by
    simp
  have hpieces : executeLines c 1 .null ((a.toList.splitOn '\n').map dropReturn) =
      executeLines c 1 .null (lines a.toList) := by
    rcases map_dropReturn_splitOn ha with heq | heq
    · rw [heq]
    · rw [heq, executeLines_concat_nil]
  rw [htext, lines_append_newline, executeLines_append, hpieces, List.length_map]

/-- Two scripts with a newline between them do what the lines of the one and then the other do. -/
lemma coupled_seam {a : String} (ha : a.toList.getLast? ≠ some '\r') (b : String) (s : Shell) :
    Coupled (EndsAfter b) (run c (a ++ "\n" ++ b) s) (linesThen c a b s) := by
  have hrun : run c (a ++ "\n" ++ b) s =
      (executeLines c 1 .null (lines (a ++ "\n" ++ b).toList) >>= finish c).run.run s := rfl
  rw [hrun, executeLines_seam c ha, bind_assoc]
  refine Coupled.bind (.refl (fun _ => rfl) _) ?_
  rintro ⟨e | last, s⟩ _ rfl
  · exact .pure (.error (.same e) s)
  · exact coupled_continued c b _ last s

end

/-! ## Conversations -/

/-- The exchanges in which both streams are flushed. -/
def flushes : List ConsoleExchange := [⟨.flush, .ok ()⟩, ⟨.flushError, .ok ()⟩]

/-- The lines of a script can have a conversation with the console, before the streams are flushed.
-/
def LinesConverse (s : Shell) (code : String) (es : List ConsoleExchange)
    (r : Except InterpreterError Value) (s' : Shell) : Prop :=
  Task.Exchanges ((executeLines Console.asking 1 .null (lines code.toList)).run.run s) es (r, s')

section
variable {s s' : Shell} {code : String} {es es' : List ConsoleExchange} {v : Value}

lemma exchanges_finish_iff {last : Value} :
    Task.Exchanges ((finish Console.asking last).run.run s) es (.ok v, s') ↔
      es = flushes ∧ v = last ∧ s' = s := by
  rw [finish, run_stream_bind]
  constructor
  · intro h
    obtain ⟨_, out, _, rfl, hout, h⟩ := h.of_bind
    cases out with
    | error e => cases h
    | ok =>
      simp only [run_stream_bind] at h
      obtain ⟨_, err, _, rfl, herr, h⟩ := h.of_bind
      cases err with
      | error e => cases h
      | ok =>
        cases h
        rw [hout.of_asked, herr.of_asked]
        exact ⟨rfl, rfl, rfl⟩
  · rintro ⟨rfl, rfl, rfl⟩
    refine (Task.Exchanges.asked .flush (.ok ())).bind ?_
    simp only [run_stream_bind]
    exact (Task.Exchanges.asked .flushError (.ok ())).bind (.pure _)

/-- A script that succeeds has done its lines and then flushed the streams. -/
lemma converses_ok_iff : s.Converses code es (.ok v) s' ↔
    ∃ es', es = es' ++ flushes ∧ s.LinesConverse code es' (.ok v) s' := by
  constructor
  · intro h
    obtain ⟨first, last, s₁, rest, rfl, hlines, hrest⟩ := exchanges_of_bind h
    obtain ⟨rfl, rfl, rfl⟩ := exchanges_finish_iff.1 hrest
    exact ⟨first, rfl, hlines⟩
  · rintro ⟨es', rfl, hlines⟩
    exact Task.Exchanges.bind hlines (exchanges_finish_iff.2 ⟨rfl, rfl, rfl⟩)

/-- A script fails with the line that fails. -/
lemma LinesConverse.converses {e : InterpreterError} (h : s.LinesConverse code es (.error e) s') :
    s.Converses code es (.error e) s' := by
  have hend : s.Converses code (es ++ []) (.error e) s' := Task.Exchanges.bind h (.pure _)
  rwa [List.append_nil] at hend

/-- So does a longer script that begins with it. -/
lemma LinesConverse.converses_seam {e : InterpreterError}
    (h : s.LinesConverse code es (.error e) s') (hreturn : code.toList.getLast? ≠ some '\r')
    (b : String) : s.Converses (code ++ "\n" ++ b) es (.error e) s' := by
  have hlines : s.LinesConverse (code ++ "\n" ++ b) (es ++ []) (.error e) s' := by
    rw [LinesConverse, executeLines_seam _ hreturn]
    exact Task.Exchanges.bind h (.pure _)
  rw [List.append_nil] at hlines
  exact hlines.converses

/-- The lines of two scripts can say and hear what the first script can, without the flushes at its
end, and then what the second one can. -/
lemma exchanges_linesThen {a b : String} {r : Except InterpreterError Value} {s₁ : Shell}
    (ha : s.Converses a (es ++ flushes) (.ok v) s₁) (hb : s₁.Converses b es' r s') :
    Task.Exchanges (linesThen Console.asking a b s) (es ++ es') (r, s') := by
  obtain ⟨_, heq, hlines⟩ := converses_ok_iff.1 ha
  obtain rfl := List.append_cancel_right heq
  exact Task.Exchanges.bind hlines hb

/-- They can say and hear nothing else, unless a line of the first script fails. -/
lemma of_exchanges_linesThen {a b : String} {r : Except InterpreterError Value}
    (h : Task.Exchanges (linesThen Console.asking a b s) es (r, s')) :
    (∃ e, r = .error e ∧ s.LinesConverse a es (.error e) s') ∨
      ∃ front back v s₁, es = front ++ back ∧ s.Converses a (front ++ flushes) (.ok v) s₁ ∧
        s₁.Converses b back r s' := by
  obtain ⟨first, ⟨e | v, s₁⟩, rest, rfl, hlines, hrest⟩ := Task.Exchanges.of_bind h
  · cases hrest
    rw [List.append_nil]
    exact .inl ⟨e, rfl, hlines⟩
  · exact .inr ⟨first, rest, v, s₁, rfl, converses_ok_iff.2 ⟨first, rfl, hlines⟩, hrest⟩

end

/-! ## Scripts in turn -/

/-- What a shell does, it does line by line, and script by script. -/
structure RunsInTurn (s : Shell) : Prop where
  /-- a script does its lines in their order, each with its number, until one fails, and flushes
  both streams after the last -/
  folds : ∀ {m : Type → Type} [Monad m] [LawfulMonad m] (c : Console m) (code : String),
    run c code s = (((lines code.toList).zipIdx 1).foldlM
      (fun last line => do return (← executeLine c line.2 line.1).getD last) Value.null >>=
        finish c).run.run s
  /-- a line that fails leaves the shell as it was -/
  cautious : ∀ {m : Type → Type} [Monad m] [LawfulMonad m] (c : Console m) (n : ℕ)
    (line : List Char),
    Ensures (fun p => ∀ e, p.1 = .error e → p.2 = s) ((executeLine c n line).run.run s)
  /-- a script that comes to a line that fails has done the lines before it and nothing else, and
  ends with the shell that these have made -/
  stops : ∀ {m : Type → Type} [Monad m] [LawfulMonad m] (c : Console m) {code : String}
    {front back : List (List Char)} {line : List Char}, lines code.toList = front ++ line :: back →
    run c code s = (executeLines c 1 .null front).run.run s >>= fun
    | (.error e, s₁) => pure (.error e, s₁)
    | (.ok last, s₁) => (executeLine c (1 + front.length) line).run.run s₁ >>= fun
      | (.error e, _) => pure (.error e, s₁)
      | (.ok v, s₂) => (executeLines c (1 + front.length + 1) (v.getD last) back >>=
          finish c).run.run s₂
  /-- two scripts with a newline between them do what the lines of the first do and then, if these
  succeed, what the second does -/
  seam : ∀ {m : Type → Type} [Monad m] [LawfulMonad m] (c : Console m) {a b : String},
    a.toList.getLast? ≠ some '\r' →
    Coupled (EndsAfter b) (run c (a ++ "\n" ++ b) s) (linesThen c a b s)
  /-- so they say and hear what the first does, if it succeeds, and then the second, but for the
  flushes at the end of the first -/
  succeeds : ∀ {a b : String} {es es' : List ConsoleExchange} {v : Value}
    {r : Except InterpreterError Value} {s₁ s₂ : Shell}, a.toList.getLast? ≠ some '\r' →
    s.Converses a (es ++ flushes) (.ok v) s₁ → s₁.Converses b es' r s₂ →
    ∃ r', s.Converses (a ++ "\n" ++ b) (es ++ es') r' s₂ ∧ EndsAfter b (r', s₂) (r, s₂)
  /-- or what the first does alone, if it fails at a line -/
  fails : ∀ {a b : String} {es : List ConsoleExchange} {e : InterpreterError} {s₁ : Shell},
    a.toList.getLast? ≠ some '\r' → s.LinesConverse a es (.error e) s₁ →
    s.Converses a es (.error e) s₁ ∧ s.Converses (a ++ "\n" ++ b) es (.error e) s₁
  /-- and nothing else -/
  conversely : ∀ {a b : String} {es : List ConsoleExchange} {r : Except InterpreterError Value}
    {s₂ : Shell}, a.toList.getLast? ≠ some '\r' → s.Converses (a ++ "\n" ++ b) es r s₂ →
    ∃ r', EndsAfter b (r, s₂) (r', s₂) ∧
      ((∃ e, r' = .error e ∧ s.LinesConverse a es (.error e) s₂) ∨
        ∃ front back v s₁, es = front ++ back ∧ s.Converses a (front ++ flushes) (.ok v) s₁ ∧
          s₁.Converses b back r' s₂)

/-- Scripts are run in turn as their lines are. -/
theorem runsInTurn (s : Shell) : RunsInTurn s where
  folds c code := by
    rw [← executeLines_eq_foldlM]
    rfl
  cautious c n line := cautious_executeLine c n line s
  stops c := fun h => run_of_lines_eq c h s
  seam c := fun ha => coupled_seam c ha _ s
  succeeds ha hfirst hsecond := by
    obtain ⟨⟨r', s₂⟩, hconverses, hend⟩ :=
      (coupled_seam _ ha _ s).symm.exchanges (exchanges_linesThen hfirst hsecond)
    obtain rfl := hend.shell_eq
    exact ⟨r', hconverses, hend⟩
  fails ha h := ⟨h.converses, h.converses_seam ha _⟩
  conversely ha h := by
    obtain ⟨⟨r', s₂⟩, hexchanges, hend⟩ := (coupled_seam _ ha _ s).exchanges h
    obtain rfl := hend.shell_eq
    exact ⟨r', hend, of_exchanges_linesThen hexchanges⟩

/-- Runs a script and then, if it succeeds, another one. -/
def runThen (c : Console m) (code next : String) (s : Shell) :
    m (Except InterpreterError Value × Shell) := do
  match ← run c code s with
  | (.error e, s) => return (.error e, s)
  | (.ok _, s) => run c next s

/-- Two scripts are not always as good as one with the lines of both: where a stream takes one more
write but no flush after it, the first script fails at its end, and the second is not run. -/
theorem not_always_one_run : ¬ ∀ (s : Shell) (streams : MemoryStreams) (a b : String),
    a.toList.getLast? ≠ some '\r' →
    let l : LocalShell := ⟨.empty, streams, s⟩
    let one := (run memoryConsole (a ++ "\n" ++ b) s).run l
    let two := (runThen memoryConsole a b s).run l
    one.1.2.vars.entries = two.1.2.vars.entries := by
  intro h
  have hvars := h (.new "1.0") ⟨.limited 1 [], none, []⟩ "print x" "set y 1" (by decide)
  revert hvars
  decide +kernel

end Shell
end WorkerHost
