import Mathlib.Data.List.TakeWhile
import WorkerHost.Proofs.Shell.Sequence

/-!
# What expansion replaces

A reference is a dollar sign with the longest run of letters, digits and underscores after it, which
is not empty. Expansion reads a text once from left to right: it replaces every reference by the
value of the variable and keeps every other character, `expand_eq_ok_iff`. It fails if a reference
names no variable, with the first one that does not, `expand_eq_error_iff`.

A value is put in as it is, and the command of a line is cut off before. So what the variables hold
has no say in which commands a script executes: `runNoting` is a run that also gives the words of
the commands it executes, and these are the first of those in the text, up to the first error.

Main result: `Shell.expandsInOnePass`.
-/

namespace WorkerHost.Shell

open Text

/-! ## References -/

/-- An ASCII letter, a digit or an underscore. -/
def IsNameChar (c : Char) : Prop :=
  ('a' ≤ c ∧ c ≤ 'z') ∨ ('A' ≤ c ∧ c ≤ 'Z') ∨ ('0' ≤ c ∧ c ≤ '9') ∨ c = '_'

lemma isNameChar_iff {c : Char} : isNameChar c = true ↔ IsNameChar c := by
  have hname : isNameChar c = (decide ('A' ≤ c ∧ c ≤ 'Z') ||
      decide ('a' ≤ c) && decide (c ≤ 'z') || decide ('0' ≤ c) && decide (c ≤ '9') ||
      c == '_') := rfl
  simp only [hname, IsNameChar, Bool.or_eq_true, Bool.and_eq_true, decide_eq_true_eq, beq_iff_eq]
  tauto

lemma not_isNameChar_dollar : ¬ IsNameChar '$' := by
  rw [← isNameChar_iff]
  decide

/-- No name goes on here. -/
def NameStops (text : List Char) : Prop :=
  ∀ c ∈ text.head?, ¬ IsNameChar c

/-- A name, as long as it can be with what follows it. -/
structure IsName (name after : List Char) : Prop where
  ne_nil : name ≠ []
  chars : ∀ c ∈ name, IsNameChar c
  stops : NameStops after

/-- After its first characters a text has a reference. -/
def HasReference (text before name : List Char) : Prop :=
  ∃ after, text = before ++ '$' :: (name ++ after) ∧ IsName name after

section
variable {c : Char} {text rest name after before n : List Char}

lemma takeWhile_name (hchars : ∀ c ∈ name, IsNameChar c) (hstops : NameStops after) :
    (name ++ after).takeWhile isNameChar = name := by
  have hall : ∀ c ∈ name, isNameChar c = true := fun c hc => isNameChar_iff.2 (hchars c hc)
  rw [List.takeWhile_append_of_pos hall]
  cases after with
  | nil => simp
  | cons c rest =>
    have hc : ¬ isNameChar c = true := fun h => hstops c rfl (isNameChar_iff.1 h)
    rw [List.takeWhile_cons_of_neg hc, List.append_nil]

lemma nameStops_dropWhile (text : List Char) : NameStops (text.dropWhile isNameChar) := by
  intro c hc hname
  have hstop := List.head?_dropWhile_not isNameChar text
  rw [Option.mem_def.1 hc] at hstop
  simp [isNameChar_iff.2 hname] at hstop

/-- A text begins with a reference or with another character, unless it is empty. -/
@[elab_as_elim]
theorem piecewise {motive : List Char → Prop} (nil : motive [])
    (reference : ∀ name after, IsName name after → motive after → motive ('$' :: (name ++ after)))
    (plain : ∀ c rest, (c = '$' → NameStops rest) → motive rest → motive (c :: rest))
    (text : List Char) : motive text := by
  induction hlength : text.length using Nat.strong_induction_on generalizing text with
  | _ k ih =>
    subst hlength
    cases text with
    | nil => exact nil
    | cons c rest =>
      have hrest : motive rest := ih _ (by simp) rest rfl
      by_cases hc : c = '$'
      · by_cases hname : rest.takeWhile isNameChar = []
        · -- a dollar sign alone
          refine plain c rest (fun _ => ?_) hrest
          have hdrop := nameStops_dropWhile rest
          rwa [← List.nil_append (rest.dropWhile isNameChar), ← hname,
            List.takeWhile_append_dropWhile] at hdrop
        · have hafter : motive (rest.dropWhile isNameChar) := by
            refine ih _ ?_ _ rfl
            have hle := (List.dropWhile_suffix isNameChar (l := rest)).length_le
            simp only [List.length_cons]
            omega
          have hread := reference _ _ ⟨hname,
            fun c hc => isNameChar_iff.1 (List.mem_takeWhile_imp hc),
            nameStops_dropWhile rest⟩ hafter
          rwa [List.takeWhile_append_dropWhile, ← hc] at hread
      · exact plain c rest (fun h => absurd h hc) hrest

lemma not_hasReference_nil : ¬ HasReference [] before name := by
  rintro ⟨after, heq, -⟩
  simp at heq

/-- A character that begins no reference has the references of what follows it. -/
lemma hasReference_plain (hc : c = '$' → NameStops rest) : HasReference (c :: rest) before name ↔
    ∃ before', before = c :: before' ∧ HasReference rest before' name := by
  constructor
  · rintro ⟨after, heq, hname⟩
    cases before with
    | nil =>
      obtain ⟨rfl, rfl⟩ := List.cons.inj heq
      obtain ⟨d, tail, rfl⟩ := List.exists_cons_of_ne_nil hname.ne_nil
      exact absurd (hname.chars d (by simp)) (hc rfl d rfl)
    | cons d before =>
      obtain ⟨rfl, rfl⟩ := List.cons.inj heq
      exact ⟨before, rfl, after, rfl, hname⟩
  · rintro ⟨before, rfl, after, rfl, hname⟩
    exact ⟨after, rfl, hname⟩

/-- There is one way to read a name. -/
lemma IsName.unique {name' after' : List Char} (h : IsName name after) (h' : IsName name' after')
    (heq : name ++ after = name' ++ after') : name = name' ∧ after = after' := by
  have hname : name = name' := by
    rw [← takeWhile_name h.chars h.stops, heq, takeWhile_name h'.chars h'.stops]
  subst hname
  exact ⟨rfl, List.append_cancel_left heq⟩

/-- A reference, and the references of what follows it. -/
lemma hasReference_reference (hname : IsName name after) :
    HasReference ('$' :: (name ++ after)) before n ↔ (before = [] ∧ n = name) ∨
      ∃ before', before = '$' :: (name ++ before') ∧ HasReference after before' n := by
  constructor
  · rintro ⟨after', heq, hn⟩
    cases before with
    | nil =>
      obtain ⟨rfl, -⟩ := hname.unique hn (List.cons.inj heq).2
      exact .inl ⟨rfl, rfl⟩
    | cons d before =>
      obtain ⟨rfl, htail⟩ := List.cons.inj heq
      replace htail : name ++ after = before ++ '$' :: (n ++ after') := htail
      refine .inr ?_
      obtain ⟨before', rfl, rfl⟩ | ⟨tail, rfl, hdollar⟩ := List.append_eq_append_iff.1 htail
      · exact ⟨before', rfl, after', rfl, hn⟩
      · -- a name has no dollar sign
        cases tail with
        | nil => exact ⟨[], by simp, after', hdollar.symm, hn⟩
        | cons e tail =>
          obtain ⟨rfl, -⟩ := List.cons.inj hdollar
          exact absurd (hname.chars '$' (by simp)) not_isNameChar_dollar
  · rintro (⟨rfl, rfl⟩ | ⟨before, rfl, after', rfl, hn⟩)
    · exact ⟨after, rfl, hname⟩
    · exact ⟨after', by simp, hn⟩

/-! ## Pieces -/

/-- Inside a name: it goes on as far as it can. -/
lemma pieces_some (acc : List Char) (hchars : ∀ c ∈ name, IsNameChar c) (hstops : NameStops after) :
    pieces (some acc) (name ++ after) =
      (if acc.isEmpty && name.isEmpty then .char '$' else .name (acc.reverse ++ name)) ::
        pieces none after := by
  induction name generalizing acc with
  | nil =>
    cases after with
    | nil => cases acc <;> simp [pieces]
    | cons c rest =>
      have hc : isNameChar c = false := by
        simpa [← isNameChar_iff] using hstops c rfl
      cases acc <;> simp [pieces, hc]
  | cons c rest ih =>
    have hc : isNameChar c = true := isNameChar_iff.2 (hchars c (by simp))
    rw [List.cons_append, pieces, if_pos hc, ih (c :: acc) fun d hd => hchars d (by simp [hd])]
    simp

lemma pieces_reference (hname : IsName name after) :
    pieces none ('$' :: (name ++ after)) = .name name :: pieces none after := by
  have hne : name.isEmpty = false := by simpa using hname.ne_nil
  rw [pieces, if_pos rfl, pieces_some [] hname.chars hname.stops, hne]
  rfl

lemma pieces_plain (hc : c = '$' → NameStops rest) :
    pieces none (c :: rest) = .char c :: pieces none rest := by
  rw [pieces]
  split
  case isTrue hdollar =>
    rw [hdollar]
    have hnone : ∀ c ∈ ([] : List Char), IsNameChar c := List.forall_mem_nil _
    exact pieces_some [] hnone (hc hdollar)
  case isFalse => rfl

end

/-! ## Expansion -/

section
variable {s : Shell} {c : Char} {text rest name after out : List Char} {v : String}
  {e : InterpreterError}

lemma expand_nil : s.expand [] = .ok [] := rfl

lemma expand_plain (hc : c = '$' → NameStops rest) :
    s.expand (c :: rest) = (s.expand rest).map (c :: ·) := by
  rw [expand, expand, pieces_plain hc, substitute]
  cases substitute s.vars (pieces none rest) <;> rfl

lemma expand_defined (hname : IsName name after) (hv : s.var? (String.ofList name) = some v) :
    s.expand ('$' :: (name ++ after)) = (s.expand after).map (v.toList ++ ·) := by
  rw [var?] at hv
  rw [expand, expand, pieces_reference hname, substitute, hv]
  cases substitute s.vars (pieces none after) <;> rfl

lemma expand_undefined (hname : IsName name after) (hv : s.var? (String.ofList name) = none) :
    s.expand ('$' :: (name ++ after)) = .error (nameError name) := by
  rw [var?] at hv
  rw [expand, pieces_reference hname, substitute, hv]
  rfl

/-- A text with its references replaced by their values, and every other character as it is. -/
inductive Expands (s : Shell) : List Char → List Char → Prop
  | nil : Expands s [] []
  | reference {name after out : List Char} {v : String} (hname : IsName name after)
      (hv : s.var? (String.ofList name) = some v) (hafter : Expands s after out) :
      Expands s ('$' :: (name ++ after)) (v.toList ++ out)
  | plain {c : Char} {rest out : List Char} (hc : c = '$' → NameStops rest)
      (hrest : Expands s rest out) : Expands s (c :: rest) (c :: out)

/-- A reference of a text names no variable, and every reference before it names one. -/
structure FirstUndefined (s : Shell) (text before name : List Char) : Prop where
  reference : HasReference text before name
  undefined : s.var? (String.ofList name) = none
  first : ∀ before' name', HasReference text before' name' → before'.length < before.length →
    ∃ v, s.var? (String.ofList name') = some v

/-- There is one such reference at most. -/
lemma FirstUndefined.name_unique {before before' name' : List Char}
    (h : s.FirstUndefined text before name) (h' : s.FirstUndefined text before' name') :
    name = name' := by
  obtain hlt | heq | hlt := Nat.lt_trichotomy before.length before'.length
  · obtain ⟨v, hv⟩ := h'.first _ _ h.reference hlt
    simp [h.undefined] at hv
  · obtain ⟨after, htext, hname⟩ := h.reference
    obtain ⟨after', htext', hname'⟩ := h'.reference
    obtain ⟨-, htail⟩ := List.append_inj (htext.symm.trans htext') heq
    exact (hname.unique hname' (List.cons.inj htail).2).1
  · obtain ⟨v, hv⟩ := h.first _ _ h'.reference hlt
    simp [h'.undefined] at hv

lemma FirstUndefined.plain {before : List Char} (hc : c = '$' → NameStops rest)
    (h : s.FirstUndefined rest before name) : s.FirstUndefined (c :: rest) (c :: before) name where
  reference := (hasReference_plain hc).2 ⟨before, rfl, h.reference⟩
  undefined := h.undefined
  first before' name' href hlt := by
    obtain ⟨before', rfl, hrest⟩ := (hasReference_plain hc).1 href
    exact h.first before' name' hrest (by simpa using hlt)

lemma FirstUndefined.past {n before : List Char} (hname : IsName name after)
    (hv : s.var? (String.ofList name) = some v) (h : s.FirstUndefined after before n) :
    s.FirstUndefined ('$' :: (name ++ after)) ('$' :: (name ++ before)) n where
  reference := (hasReference_reference hname).2 (.inr ⟨before, rfl, h.reference⟩)
  undefined := h.undefined
  first before' name' href hlt := by
    obtain ⟨rfl, rfl⟩ | ⟨before', rfl, hafter⟩ := (hasReference_reference hname).1 href
    · exact ⟨v, hv⟩
    · exact h.first before' name' hafter (by simpa using hlt)

/-- Expansion replaces all references, or there is a first one that it can not replace. -/
theorem expand_cases (s : Shell) (text : List Char) :
    (∃ out, s.expand text = .ok out ∧ s.Expands text out ∧
      ∀ before name, HasReference text before name → ∃ v, s.var? (String.ofList name) = some v) ∨
    ∃ before name, s.expand text = .error (nameError name) ∧
      s.FirstUndefined text before name := by
  induction text using piecewise with
  | nil => exact .inl ⟨[], expand_nil, .nil, fun _ _ h => absurd h not_hasReference_nil⟩
  | plain c rest hc ih =>
    rw [expand_plain hc]
    obtain ⟨out, hout, hexpands, hall⟩ | ⟨before, name, herr, hfirst⟩ := ih
    · refine .inl ⟨c :: out, by rw [hout]; rfl, hexpands.plain hc, fun before name href => ?_⟩
      obtain ⟨before, rfl, hrest⟩ := (hasReference_plain hc).1 href
      exact hall before name hrest
    · exact .inr ⟨c :: before, name, by rw [herr]; rfl, hfirst.plain hc⟩
  | reference name after hname ih =>
    cases hv : s.var? (String.ofList name) with
    | none =>
      -- nothing is before the reference
      exact .inr ⟨[], name, expand_undefined hname hv,
        (hasReference_reference hname).2 (.inl ⟨rfl, rfl⟩), hv, fun _ _ _ hlt => nomatch hlt⟩
    | some v =>
      rw [expand_defined hname hv]
      obtain ⟨out, hout, hexpands, hall⟩ | ⟨before, n, herr, hfirst⟩ := ih
      · refine .inl ⟨v.toList ++ out, by rw [hout]; rfl, hexpands.reference hname hv,
          fun before n href => ?_⟩
        obtain ⟨rfl, rfl⟩ | ⟨before, rfl, hafter⟩ := (hasReference_reference hname).1 href
        · exact ⟨v, hv⟩
        · exact hall before n hafter
      · exact .inr ⟨'$' :: (name ++ before), n, by rw [herr]; rfl, hfirst.past hname hv⟩

lemma Expands.expand_eq (h : s.Expands text out) : s.expand text = .ok out := by
  induction h with
  | nil => exact expand_nil
  | reference hname hv _ ih =>
    rw [expand_defined hname hv, ih]
    rfl
  | plain hc _ ih =>
    rw [expand_plain hc, ih]
    rfl

/-- Expansion gives the text with its references replaced. -/
theorem expand_eq_ok_iff : s.expand text = .ok out ↔ s.Expands text out := by
  refine ⟨fun h => ?_, Expands.expand_eq⟩
  obtain ⟨out', hout, hexpands, -⟩ | ⟨before, name, herr, -⟩ := expand_cases s text
  · obtain rfl := Except.ok.inj (hout.symm.trans h)
    exact hexpands
  · simp [herr] at h

/-- A value is not looked at again, and a dollar sign alone stays. -/
example : (((new "1.0").setVar "a" "$b").expand "$a$$a.$".toList).toOption =
    some "$b$$b.$".toList := by
  decide +kernel

/-- It does so if all of them name variables. -/
theorem exists_expand_eq_ok_iff : (∃ out, s.expand text = .ok out) ↔
    ∀ before name, HasReference text before name → ∃ v, s.var? (String.ofList name) = some v := by
  obtain ⟨out, hout, -, hall⟩ | ⟨before, name, herr, hfirst⟩ := expand_cases s text
  · exact ⟨fun _ => hall, fun _ => ⟨out, hout⟩⟩
  · refine ⟨fun ⟨out, hout⟩ => by simp [herr] at hout, fun hall => ?_⟩
    obtain ⟨v, hv⟩ := hall before name hfirst.reference
    simp [hfirst.undefined] at hv

/-- If not, it fails with the first one that names none. -/
theorem expand_eq_error_iff : s.expand text = .error e ↔
    ∃ before name, s.FirstUndefined text before name ∧
      e = ⟨"NameError", "name '" ++ String.ofList name ++ "' is not defined"⟩ := by
  obtain ⟨out, hout, -, hall⟩ | ⟨before, name, herr, hfirst⟩ := expand_cases s text
  · refine ⟨fun h => by simp [hout] at h, fun ⟨before, name, hfirst, _⟩ => ?_⟩
    obtain ⟨v, hv⟩ := hall before name hfirst.reference
    simp [hfirst.undefined] at hv
  · rw [herr]
    constructor
    · rintro ⟨⟩
      exact ⟨before, name, hfirst, rfl⟩
    · rintro ⟨before', name', hfirst', rfl⟩
      rw [hfirst.name_unique hfirst']
      rfl

end

/-! ## The commands that are executed -/

/-- The words of the commands of a text, in their order. -/
def commandWords (code : String) : List (List Char) :=
  (lines code.toList).filterMap fun line => (command? line).map (·.1)

/-- How a run ends, and the words of the commands that it has executed. -/
abbrev Noted := (Except InterpreterError Value × Shell) × List (List Char)

section
variable {m : Type → Type} [Monad m] (c : Console m)

/-- Does lines in turn as `executeLines`, and notes the words of the commands that are executed. -/
def executeLinesNoting : ℕ → Value → List (List Char) → Shell → m Noted
  | _, last, [], s => return ((.ok last, s), [])
  | n, last, line :: more, s =>
    match command? line with
    | none => executeLinesNoting (n + 1) last more s
    | some (cmd, rest) =>
      match s.expand rest with
      | .error e => return ((.error e, s), [])
      | .ok rest => do
        match ← (execute c n cmd rest).run.run s with
        | (.error e, s) => return ((.error e, s), [cmd])
        | (.ok v, s) => do
          let noted ← executeLinesNoting (n + 1) (v.getD last) more s
          return (noted.1, cmd :: noted.2)

/-- Runs a script as `run`, and notes the words of the commands that are executed. -/
def runNoting (code : String) (s : Shell) : m Noted := do
  match ← executeLinesNoting c 1 .null (lines code.toList) s with
  | ((.error e, s), words) => return ((.error e, s), words)
  | ((.ok last, s), words) => do
    let p ← (finish c last).run.run s
    return (p, words)

variable [LawfulMonad m]

/-- A line with a command: its variables are replaced, and the command is executed. -/
lemma run_executeLine {line cmd rest : List Char} (hline : command? line = some (cmd, rest))
    (n : ℕ) (s : Shell) : (executeLine c n line).run.run s =
      match s.expand rest with
      | .error e => pure (.error e, s)
      | .ok rest => (execute c n cmd rest).run.run s := by
  rw [executeLine, hline, ExceptT.run_bind, StateT.run_bind, run_get, pure_bind]
  dsimp only
  cases s.expand rest <;> rfl

lemma map_executeLinesNoting (n : ℕ) (last : Value) (ls : List (List Char)) (s : Shell) :
    (·.1) <$> executeLinesNoting c n last ls s = (executeLines c n last ls).run.run s := by
  induction ls generalizing n last s with
  | nil => simp [executeLinesNoting, executeLines]
  | cons line more ih =>
    rw [executeLinesNoting, executeLines]
    cases hline : command? line with
    | none =>
      rw [ih, executeLine, hline, pure_bind]
      rfl
    | some command =>
      obtain ⟨cmd, rest⟩ := command
      rw [ExceptT.run_bind, StateT.run_bind, run_executeLine c hline]
      dsimp only
      cases s.expand rest with
      | error e => simp
      | ok rest =>
        dsimp only
        rw [map_bind]
        refine bind_congr fun p => ?_
        obtain ⟨e | v, s⟩ := p
        · simp
        · simp [← ih]

/-- Noting changes nothing in a run. -/
lemma map_runNoting (code : String) (s : Shell) : (·.1) <$> runNoting c code s = run c code s := by
  have hrun : run c code s =
      (executeLines c 1 .null (lines code.toList) >>= finish c).run.run s := rfl
  rw [hrun, ExceptT.run_bind, StateT.run_bind, ← map_executeLinesNoting, runNoting, map_bind,
    bind_map_left]
  refine bind_congr fun noted => ?_
  obtain ⟨⟨e | last, s⟩, words⟩ := noted
  · simp
  · simp

/-- The commands that lines execute are their first ones, and all if no line fails. -/
lemma ensures_executeLinesNoting (n : ℕ) (last : Value) (ls : List (List Char)) (s : Shell) :
    Ensures (fun noted => noted.2 <+: (ls.filterMap fun line => (command? line).map (·.1)) ∧
        ∀ v, noted.1.1 = .ok v → noted.2 = ls.filterMap fun line => (command? line).map (·.1))
      (executeLinesNoting c n last ls s) := by
  induction ls generalizing n last s with
  | nil => exact .pure ⟨List.prefix_rfl, fun _ _ => rfl⟩
  | cons line more ih =>
    rw [executeLinesNoting]
    cases hline : command? line with
    | none =>
      rw [List.filterMap_cons_none (by rw [hline]; rfl)]
      exact ih (n + 1) last s
    | some command =>
      obtain ⟨cmd, rest⟩ := command
      rw [List.filterMap_cons_some (b := cmd) (by rw [hline]; rfl)]
      dsimp only
      cases s.expand rest with
      | error e => exact .pure ⟨List.nil_prefix, nofun⟩
      | ok rest =>
        refine (Ensures.trivial _).bind fun p _ => ?_
        obtain ⟨e | v, s⟩ := p
        · exact .pure ⟨(List.prefix_cons_inj cmd).2 List.nil_prefix, nofun⟩
        · refine (ih (n + 1) (v.getD last) s).bind fun noted hnoted => .pure ?_
          exact ⟨(List.prefix_cons_inj cmd).2 hnoted.1,
            fun v hv => congrArg (cmd :: ·) (hnoted.2 v hv)⟩

/-- The commands that a script executes are its first ones, and all if it succeeds. -/
theorem ensures_runNoting (code : String) (s : Shell) :
    Ensures (fun noted => noted.2 <+: commandWords code ∧
      ∀ v, noted.1.1 = .ok v → noted.2 = commandWords code) (runNoting c code s) := by
  refine (ensures_executeLinesNoting c 1 .null (lines code.toList) s).bind fun noted hnoted => ?_
  obtain ⟨⟨e | last, s⟩, words⟩ := noted
  · exact .pure ⟨hnoted.1, nofun⟩
  · exact (Ensures.trivial _).bind fun p _ => .pure ⟨hnoted.1, fun _ _ => hnoted.2 last rfl⟩

end

/-- What all results of a conversation satisfy, the result of every one does. -/
lemma Ensures.of_exchanges {α : Type} {P : α → Prop}
    {x : Task Unit ConsoleAsk ConsoleAsk.Answer α} {es : List ConsoleExchange} {a : α}
    (h : Ensures P x) (hx : x.Exchanges es a) : P a := by
  obtain ⟨z, rfl⟩ := h
  obtain ⟨_, p, _, rfl, -, hrest⟩ := Task.Exchanges.of_bind hx
  cases hrest
  exact p.2

/-! ## One pass -/

/-- What a shell makes of a text, whatever its variables hold. -/
structure ExpandsInOnePass (s : Shell) : Prop where
  /-- expansion succeeds exactly if every reference names a variable -/
  succeeds : ∀ text, (∃ out, s.expand text = .ok out) ↔
    ∀ before name, HasReference text before name → ∃ v, s.var? (String.ofList name) = some v
  /-- and gives the text with each reference replaced by its value, and all else unchanged -/
  replaces : ∀ text out, s.expand text = .ok out ↔ s.Expands text out
  /-- otherwise its error has the name of the first reference that names none -/
  fails : ∀ text e, s.expand text = .error e ↔ ∃ before name, s.FirstUndefined text before name ∧
    e = ⟨"NameError", "name '" ++ String.ofList name ++ "' is not defined"⟩
  /-- to note which commands are executed does not change a run -/
  notes : ∀ {m : Type → Type} [Monad m] [LawfulMonad m] (c : Console m) (code : String),
    (·.1) <$> runNoting c code s = run c code s
  /-- they are the first commands of the text, and all of them if the script succeeds -/
  executes : ∀ {m : Type → Type} [Monad m] [LawfulMonad m] (c : Console m) (code : String),
    Ensures (fun noted => noted.2 <+: commandWords code ∧
      ∀ v, noted.1.1 = .ok v → noted.2 = commandWords code) (runNoting c code s)
  /-- so with other variables, and with other answers of the console, the same commands are executed
  up to the first error -/
  alike : ∀ (s' : Shell) {code : String} {es es' : List ConsoleExchange} {noted noted' : Noted},
    (runNoting Console.asking code s).Exchanges es noted →
    (runNoting Console.asking code s').Exchanges es' noted' →
    (noted.2 <+: noted'.2 ∨ noted'.2 <+: noted.2) ∧ ∀ v, noted.1.1 = .ok v → noted'.2 <+: noted.2

/-- Variables are replaced in one pass, and what they hold is not looked at. -/
theorem expandsInOnePass (s : Shell) : s.ExpandsInOnePass where
  succeeds _ := exists_expand_eq_ok_iff
  replaces _ _ := expand_eq_ok_iff
  fails _ _ := expand_eq_error_iff
  notes c code := map_runNoting c code s
  executes c code := ensures_runNoting c code s
  alike s' code _ _ noted noted' h h' := by
    obtain ⟨hwords, hall⟩ := Ensures.of_exchanges (ensures_runNoting Console.asking code s) h
    obtain ⟨hwords', -⟩ := Ensures.of_exchanges (ensures_runNoting Console.asking code s') h'
    refine ⟨List.prefix_or_prefix_of_prefix hwords hwords', fun v hv => ?_⟩
    rw [hall v hv]
    exact hwords'

end WorkerHost.Shell
