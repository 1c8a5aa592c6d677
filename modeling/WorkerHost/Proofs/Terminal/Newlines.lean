import WorkerHost.Proofs.Terminal.Output

/-!
# Newlines on the display

A session translates newlines piece by piece, and carries from one piece to the next whether the
display stands after a carriage return. `crlf` says of a text as a whole what that comes to: a
carriage return stands before each newline that none directly precedes.

* `crlf_eq`: the translation of a text in one piece is `crlf`;
* `Told.emits_performed`: a session puts on the display just the texts of its marks, one after the
  other;
* `display_crlf`: so the display is `crlf` of all that was emitted, wherever it was cut.
-/

namespace WorkerHost

/-! ## Whole texts -/

/-- The text with a carriage return before each newline that none directly precedes. -/
def crlf (text : List Char) : List Char :=
  (text.zip (none :: text.map some)).flatMap fun (c, before) =>
    if c = '\n' ∧ before ≠ some '\r' then ['\r', '\n'] else [c]

lemma translateNewlines_bare (rest : List Char) : translateNewlines false ('\n' :: rest) =
    ('\r' :: '\n' :: (translateNewlines false rest).1, (translateNewlines false rest).2) := rfl

lemma translateNewlines_plain {c : Char} {after : Bool} (h : ¬(c = '\n' ∧ after = false))
    (rest : List Char) : translateNewlines after (c :: rest) =
      (c :: (translateNewlines (c == '\r') rest).1, (translateNewlines (c == '\r') rest).2) := by
  have hbare : ¬ (c == '\n' && !after) = true := by simpa using h
  rw [translateNewlines]
  dsimp only
  rw [if_neg hbare]

section
variable (after : Bool) (text : List Char)

lemma flatMap_zip_eq (before : Option Char) :
    ((text.zip (before :: text.map some)).flatMap fun (c, before) =>
      if c = '\n' ∧ before ≠ some '\r' then ['\r', '\n'] else [c]) =
      (translateNewlines (before == some '\r') text).1 := by
  -- the pairs of a text go on with its first character as the one before
  induction text generalizing before with
  | nil => rfl
  | cons c rest ih =>
    rw [List.map_cons, List.zip_cons_cons, List.flatMap_cons, ih (some c)]
    by_cases h : c = '\n' ∧ before ≠ some '\r'
    · obtain ⟨rfl, hbefore⟩ := h
      rw [beq_false_of_ne hbefore, translateNewlines_bare]
      simp [hbefore]
    · have hplain : ¬(c = '\n' ∧ (before == some '\r') = false) := by simpa using h
      rw [translateNewlines_plain hplain]
      dsimp only
      rw [if_neg h]
      rfl

/-- The translation of a text in one piece. -/
lemma crlf_eq : crlf text = (translateNewlines false text).1 :=
  flatMap_zip_eq text none

/-- A newline of a translated text directly follows a carriage return, which may be the one before
the text. -/
lemma getLast?_of_translateNewlines {front back : List Char}
    (h : (translateNewlines after text).1 = front ++ '\n' :: back) :
    front.getLast? = some '\r' ∨ front = [] ∧ after = true := by
  induction text generalizing after front with
  | nil => exact absurd h.symm (List.append_ne_nil_of_right_ne_nil front (List.cons_ne_nil _ _))
  | cons c rest ih =>
    -- a newline further on follows a carriage return there, or this character, which is one
    have hlater {front : List Char}
        (h : (translateNewlines (c == '\r') rest).1 = front ++ '\n' :: back) :
        (c :: front).getLast? = some '\r' := by
      rcases ih _ h with hlast | ⟨rfl, hc⟩
      · rw [List.getLast?_cons, hlast]
        rfl
      · rw [eq_of_beq hc]
        rfl
    by_cases hbare : c = '\n' ∧ after = false
    · obtain ⟨rfl, rfl⟩ := hbare
      rw [translateNewlines_bare] at h
      rcases List.cons_eq_append_iff.1 h with ⟨-, hback⟩ | ⟨front, rfl, hrest⟩
      · cases hback
      · rcases List.cons_eq_append_iff.1 hrest with ⟨rfl, -⟩ | ⟨front, rfl, hrest⟩
        · exact .inl rfl
        · rw [List.getLast?_cons_cons]
          exact .inl (hlater (List.cons.inj hrest).2)
    · rw [translateNewlines_plain hbare] at h
      rcases List.cons_eq_append_iff.1 h with ⟨rfl, hback⟩ | ⟨front, rfl, hrest⟩
      · obtain ⟨rfl, -⟩ := List.cons.inj hback
        exact .inr ⟨rfl, by simpa using hbare⟩
      · exact .inl (hlater hrest)

/-- Translating a translated text changes nothing. -/
lemma translateNewlines_idem :
    translateNewlines after (translateNewlines after text).1 = translateNewlines after text := by
  induction text generalizing after with
  | nil => rfl
  | cons c rest ih =>
    by_cases hbare : c = '\n' ∧ after = false
    -- the newline that got a carriage return has one the second time
    · obtain ⟨rfl, rfl⟩ := hbare
      have hafter : ¬('\n' = '\n' ∧ ('\r' == '\r') = false) := by decide
      have hrest := ih false
      rw [translateNewlines_bare, translateNewlines_plain (by decide),
        translateNewlines_plain hafter]
      simp [hrest]
    · rw [translateNewlines_plain hbare, translateNewlines_plain hbare, ih]

lemma sublist_translateNewlines : text.Sublist (translateNewlines after text).1 := by
  induction text generalizing after with
  | nil => exact .slnil
  | cons c rest ih =>
    by_cases hbare : c = '\n' ∧ after = false
    · obtain ⟨rfl, rfl⟩ := hbare
      exact ((ih false).cons_cons '\n').cons '\r'
    · rw [translateNewlines_plain hbare]
      exact (ih _).cons_cons c

lemma filter_translateNewlines :
    (translateNewlines after text).1.filter (· ≠ '\r') = text.filter (· ≠ '\r') := by
  induction text generalizing after with
  | nil => rfl
  | cons c rest ih =>
    by_cases hbare : c = '\n' ∧ after = false
    · obtain ⟨rfl, rfl⟩ := hbare
      rw [translateNewlines_bare, List.filter_cons_of_neg (by simp), List.filter_cons,
        List.filter_cons, ih]
    · rw [translateNewlines_plain hbare, List.filter_cons, List.filter_cons, ih]

end

/-! ## Pieces -/

namespace Session

/-- The display: what has gone to it, and whether it stands after a carriage return. -/
def display (s : Session) : List (List Char) × Bool :=
  (s.surface, s.afterReturn)

/-- A piece goes to the display; nothing goes if it is empty. -/
def put (d : List (List Char) × Bool) (data : List Char) : List (List Char) × Bool :=
  if data.isEmpty then d
  else ((translateNewlines d.2 data).1 :: d.1, (translateNewlines d.2 data).2)

/-- The session after it has emitted some pieces, one after the other. -/
def emitAll (s : Session) (pieces : List (List Char)) : Session :=
  pieces.foldl emit s

section
variable {s : Session} {log : List Mark}

lemma display_emit (s : Session) (data : List Char) :
    (s.emit data).display = put s.display data := by
  unfold Session.emit put
  split <;> rfl

lemma display_emitAll (s : Session) (pieces : List (List Char)) :
    (s.emitAll pieces).display = pieces.foldl put s.display := by
  induction pieces generalizing s with
  | nil => rfl
  | cons piece rest ih =>
    rw [List.foldl_cons, ← display_emit]
    exact ih (s.emit piece)

/-- A session comes to another one by putting these pieces on the display. -/
def Emits (s : Session) (pieces : List (List Char)) (s' : Session) : Prop :=
  s'.display = pieces.foldl put s.display

namespace Emits
variable {s' s'' : Session} {pieces more : List (List Char)}

/-- Nothing goes to the display. -/
lemma none (h : s'.display = s.display) : s.Emits [] s' := h

lemma emit (s : Session) (data : List Char) : s.Emits [data] (s.emit data) :=
  s.display_emit data

lemma trans (h : s.Emits pieces s') (h' : s'.Emits more s'') : s.Emits (pieces ++ more) s'' := by
  unfold Emits at *
  rw [List.foldl_append, ← h, h']

/-- Only the display counts. -/
lemma congr {t t' : Session} (h : s.Emits pieces s') (hs : t.display = s.display)
    (hs' : t'.display = s'.display) : t.Emits pieces t' := by
  unfold Emits at *
  rw [hs, hs', h]

lemma foldl_emit (s : Session) (data : List String) :
    s.Emits (data.map String.toList) (data.foldl (fun s piece => s.emit piece.toList) s) := by
  induction data generalizing s with
  | nil => exact none rfl
  | cons piece rest ih => exact (emit s piece.toList).trans (ih _)

end Emits

/-! ## Operations -/

lemma display_endRead (s : Session) (line : Option String) :
    (s.endRead line).display = s.display := by
  unfold endRead
  split <;> rfl

lemma queued_endRead (s : Session) (line : Option String) : (s.endRead line).queued = s.queued := by
  unfold endRead
  split <;> rfl

lemma queued_emit (s : Session) (data : List Char) : (s.emit data).queued = s.queued := by
  unfold Session.emit
  split <;> rfl

/-- The end of a line and all that was queued go to the display. -/
lemma emits_completeLine (s : Session) (read : ℕ) :
    s.Emits ((flush read s.queued).map Mark.text) s.completeLine := by
  have htexts : (flush read s.queued).map Mark.text =
      ['\r', '\n'] :: s.queued.map String.toList := by
    simp [flush, Mark.text]
  -- the queue is emitted by a session that has ended the read, which the display does not see
  let ended : Session := { (s.emit ['\r', '\n']).endRead (some (s.emit ['\r', '\n']).line) with
    typed := [], state := .writing }
  have hended : s.Emits [['\r', '\n']] ended :=
    (Emits.emit s ['\r', '\n']).congr rfl (display_endRead _ _)
  have hqueued : ended.queued = s.queued := (queued_endRead _ _).trans (queued_emit _ _)
  rw [htexts, ← hqueued]
  exact (hended.trans (Emits.foldl_emit ended ended.queued)).congr rfl rfl

lemma emits_key {read : ℕ} (hpending : s.pending = some read) (c : Char) :
    s.Emits ((s.keyMarks c).map Mark.text) (s.key c) := by
  unfold Session.key keyMarks
  by_cases hback : c = backspace
  · rw [if_pos hback, if_pos hback]
    cases s.typed with
    | nil => exact .none rfl
    | cons last rest => exact (Emits.emit { s with typed := rest } erase).congr rfl rfl
  · rw [if_neg hback, if_neg hback]
    by_cases henter : c = enter
    · rw [if_pos henter, if_pos henter, hpending]
      exact s.emits_completeLine read
    · rw [if_neg henter, if_neg henter]
      exact (Emits.emit { s with typed := c :: s.typed } [c]).congr rfl rfl

lemma Told.emits_input (h : Told s log) (keys : List Char) :
    s.Emits ((s.inputMarks keys).map Mark.text) (keys.foldl Session.inputKey s) := by
  induction keys generalizing s log with
  | nil => exact .none rfl
  | cons c rest ih =>
    rw [inputMarks, List.map_append]
    refine .trans ?_ (ih (h.inputKey c))
    unfold Session.inputKey
    by_cases hreading : s.state = .reading
    · obtain ⟨read, hpending⟩ := h.exists_pending hreading
      rw [if_pos hreading, if_pos hreading]
      exact emits_key hpending c
    · rw [if_neg hreading, if_neg hreading]
      exact .none rfl

lemma Told.emits_replay (h : Told s log) (held : List Char) :
    s.Emits ((s.replayMarks held).map Mark.text) (s.replay held) := by
  induction held generalizing s log with
  | nil => exact .none rfl
  | cons c rest ih =>
    unfold Session.replay replayMarks
    by_cases hreading : s.state = .reading
    · obtain ⟨read, hpending⟩ := h.exists_pending hreading
      rw [if_pos hreading, if_pos hreading, List.map_append]
      exact (emits_key hpending c).trans (ih (h.key hreading c))
    · rw [if_neg hreading, if_neg hreading]
      exact .none rfl

/-- A read shows its prompt, if prompts are shown. -/
lemma emits_prompted (s : Session) (prompt : Option String) :
    s.Emits [s.promptText prompt] (s.prompted prompt) := by
  obtain ⟨ends, hends, -⟩ := s.endRead_none
  unfold Session.prompted promptText
  rw [hends]
  by_cases hecho : s.echo = true
  · rw [if_pos hecho]
    dsimp only
    rw [if_pos hecho]
    let begun : Session := { s with
      pending := some s.nextRead, ends := ends, nextRead := s.nextRead + 1, typed := []
      state := .reading }
    exact (Emits.emit begun (prompt.getD "").toList).congr rfl rfl
  · rw [if_neg hecho]
    dsimp only
    rw [if_neg hecho]
    exact .none rfl

/-- An operation puts the texts of its marks on the display. -/
lemma Told.emits_apply (h : Told s log) (op : Op) :
    s.Emits ((op.marks s).map Mark.text) (op.apply s) := by
  cases op with
  | input data => exact h.emits_input data.toList
  | feedLine data =>
    show s.Emits ((s.inputMarks data.toList ++ _).map Mark.text) ((s.input data).input "\r")
    rw [List.map_append]
    exact (h.emits_input data.toList).trans ((h.input data.toList).emits_input [enter])
  | beginRead prompt =>
    exact (s.emits_prompted prompt).trans ((h.prompted prompt).emits_replay _)
  | write data =>
    show s.Emits ((s.writeMarks data).map Mark.text) (s.write data)
    unfold Session.write writeMarks
    split
    · exact .none rfl
    · exact .emit s data.toList

lemma Told.emits_performed (h : Told s log) (ops : List Op) :
    s.Emits ((s.marksOf ops).map Mark.text) (s.performed ops) := by
  induction ops generalizing s log with
  | nil => exact .none rfl
  | cons op rest ih =>
    rw [marksOf, List.map_append]
    exact (h.emits_apply op).trans (ih (h.apply op))

end

/-! ## The display as a whole -/

/-- What is on the display after some pieces is their text, translated as a whole. -/
lemma screen_emitAll (id : String) (echo : Bool) (pieces : List (List Char)) :
    ((new id echo).emitAll pieces).screen = crlf pieces.flatten := by
  have hshows : ((new id echo).emitAll pieces).Shows pieces.flatten := by
    -- from the last piece, as the display is what the pieces before it have left
    induction pieces using List.reverseRecOn with
    | nil => exact ⟨rfl, rfl⟩
    | append_singleton rest piece ih =>
      obtain ⟨shown, after, hemit, hshows⟩ := ih.emit piece
      rw [List.flatten_append, List.flatten_singleton, emitAll, List.foldl_append]
      show Shows (Session.emit ((new id echo).emitAll rest) piece) _
      rw [hemit]
      exact hshows
  rw [hshows.screen, crlf_eq]

/-- The display of a session that has emitted some pieces since its start. -/
structure Translated (start : Session) (pieces : List (List Char)) (s : Session) : Prop where
  /-- the pieces have gone to the display in their order, and nothing else has -/
  emitted : s.surface = (start.emitAll pieces).surface
  /-- the display is their whole text with the newlines translated -/
  screen : s.screen = crlf pieces.flatten
  /-- where the text is cut into pieces makes no difference -/
  cut : ∀ pieces', pieces'.flatten = pieces.flatten →
    (start.emitAll pieces').screen = s.screen
  /-- every newline on the display directly follows a carriage return -/
  newline : ∀ front back, s.screen = front ++ '\n' :: back → front.getLast? = some '\r'
  /-- the text is all there, and only carriage returns have come to it -/
  kept : pieces.flatten.Sublist s.screen ∧
    s.screen.filter (· ≠ '\r') = pieces.flatten.filter (· ≠ '\r')
  /-- there is nothing left to translate -/
  again : crlf s.screen = s.screen

/-- Whatever operations come in whatever order, the display shows what the session has emitted as
one text, with a carriage return before each newline that lacks one. -/
theorem display_crlf (id : String) (echo : Bool) (ops : List Op) :
    Translated (new id echo) (((new id echo).marksOf ops).map Mark.text)
      ((new id echo).performed ops) := by
  have hemits := (told_new id echo).emits_performed ops
  generalize hpieces : ((new id echo).marksOf ops).map Mark.text = pieces at *
  have hsurface : ((new id echo).performed ops).surface = ((new id echo).emitAll pieces).surface :=
    congrArg Prod.fst (Eq.trans hemits (display_emitAll _ pieces).symm)
  have hscreen : ((new id echo).performed ops).screen = crlf pieces.flatten := by
    rw [← screen_emitAll id echo, Session.screen, Session.screen, hsurface]
  refine ⟨hsurface, hscreen, ?_, ?_, ?_, ?_⟩
  all_goals rw [hscreen]
  · intro pieces' hflatten
    rw [screen_emitAll, hflatten]
  · intro front back hsplit
    rw [crlf_eq] at hsplit
    rcases getLast?_of_translateNewlines false _ hsplit with hlast | ⟨-, hafter⟩
    · exact hlast
    · cases hafter
  · rw [crlf_eq]
    exact ⟨sublist_translateNewlines false _, filter_translateNewlines false _⟩
  · rw [crlf_eq, crlf_eq, translateNewlines_idem]

/-- A carriage return and its newline that come apart, and a key that is a newline. -/
example : ((new "tty" true).performed [.write "a\r", .write "\nb", .beginRead (some "? "),
    .input "\n", .write "c\n", .input "\r"]).screen = "a\r\nb? \r\n\r\nc\r\n".toList :=
  rfl

end Session
end WorkerHost
