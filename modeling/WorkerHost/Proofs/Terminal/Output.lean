import WorkerHost.Proofs.Outcome
import WorkerHost.Proofs.Terminal.Reads

/-!
# What a terminal session shows

Whatever a session does leaves marks: a read begins and shows its prompt, keys are echoed and
erased, lines end, the program writes, and what it has written comes out. The marks of an operation
stand beside it, `Op.marks`, and those of a whole run are `marksOf`. The display is their text with
the newlines translated.

`Transcript log pending queued` are the shapes that marks can have, one rule for each thing that can
happen. What is said of the order of the output is said of transcripts, without a session.

* `Transcript.writes`: every write has come out once or is queued, in the order of writing;
* `Transcript.during`: what stands between a read and the end of its line, and right after it;
* `Told.apply`: an operation goes on with the transcript;
* `output_in_order`: all this of every run, reads that take the place of others included.
-/

namespace WorkerHost

/-! ## Newlines -/

/-- Newlines can be translated piece by piece. -/
lemma translateNewlines_append (after : Bool) (front back : List Char) :
    translateNewlines after (front ++ back) =
      ((translateNewlines after front).1 ++
          (translateNewlines (translateNewlines after front).2 back).1,
        (translateNewlines (translateNewlines after front).2 back).2) := by
  induction front generalizing after with
  | nil => rfl
  | cons c rest ih =>
    rw [List.cons_append, translateNewlines, translateNewlines, ih (c == '\r')]
    dsimp only
    split
    · rfl
    · rfl

/-! ## Marks -/

namespace Session

/-- What can be seen of a session, and the writes that it is given. -/
inductive Mark where
  /-- a read begins and shows its prompt -/
  | begun (read : ℕ) (prompt : List Char)
  /-- a key of the line is echoed -/
  | echoed (c : Char)
  /-- the last key of the line is deleted -/
  | erased
  /-- the line of a read ends -/
  | ended (read : ℕ)
  /-- the program writes -/
  | written (data : String)
  /-- what the program has written comes out -/
  | shown (data : String)

namespace Mark

/-- What a mark puts on the display, before newlines are translated. -/
def text : Mark → List Char
  | begun _ prompt => prompt
  | echoed c => [c]
  | erased => erase
  | ended _ => ['\r', '\n']
  | written _ => []
  | shown data => data.toList

/-- What a key of the line shows. -/
inductive IsKey : Mark → Prop where
  | echoed (c : Char) : IsKey (echoed c)
  | erased : IsKey erased

/-- Whether a mark is of the line that is being typed, or shows nothing. -/
def InLine (x : Mark) : Prop :=
  x.IsKey ∨ ∃ data, x = written data

def begun? : Mark → Option ℕ
  | begun read _ => some read
  | _ => none

def ended? : Mark → Option ℕ
  | ended read => some read
  | _ => none

def written? : Mark → Option String
  | written data => some data
  | _ => none

def shown? : Mark → Option String
  | shown data => some data
  | _ => none

end Mark

/-- The reads that have begun. -/
def begunIn (log : List Mark) : List ℕ :=
  log.filterMap Mark.begun?

/-- The reads whose line has ended. -/
def endedIn (log : List Mark) : List ℕ :=
  log.filterMap Mark.ended?

/-- What the program has written. -/
def writtenIn (log : List Mark) : List String :=
  log.filterMap Mark.written?

/-- What has come out of it. -/
def shownIn (log : List Mark) : List String :=
  log.filterMap Mark.shown?

/-- What has been written and has not come out, if writes come out in their order. -/
def waitingIn (log : List Mark) : List String :=
  (writtenIn log).drop (shownIn log).length

section
variable {log more : List Mark} {read : ℕ} {data : List String}

@[simp] lemma begunIn_append : begunIn (log ++ more) = begunIn log ++ begunIn more :=
  List.filterMap_append

@[simp] lemma endedIn_append : endedIn (log ++ more) = endedIn log ++ endedIn more :=
  List.filterMap_append

@[simp] lemma writtenIn_append : writtenIn (log ++ more) = writtenIn log ++ writtenIn more :=
  List.filterMap_append

@[simp] lemma shownIn_append : shownIn (log ++ more) = shownIn log ++ shownIn more :=
  List.filterMap_append

/-- The marks of what comes out at the end of a line. -/
def flush (read : ℕ) (data : List String) : List Mark :=
  .ended read :: data.map .shown

lemma filterMap_flush {α : Type} (f : Mark → Option α) :
    (flush read data).filterMap f = (f (.ended read)).toList ++ data.filterMap (f ∘ .shown) := by
  rw [flush, List.filterMap_cons, List.filterMap_map]
  cases f (.ended read) with
  | none => rfl
  | some a => rfl

@[simp] lemma begunIn_flush : begunIn (flush read data) = [] := by
  rw [begunIn, filterMap_flush]
  exact List.filterMap_eq_nil_iff.2 fun _ _ => rfl

@[simp] lemma endedIn_flush : endedIn (flush read data) = [read] := by
  rw [endedIn, filterMap_flush]
  exact congrArg ([read] ++ ·) (List.filterMap_eq_nil_iff.2 fun _ _ => rfl)

@[simp] lemma writtenIn_flush : writtenIn (flush read data) = [] := by
  rw [writtenIn, filterMap_flush]
  exact List.filterMap_eq_nil_iff.2 fun _ _ => rfl

@[simp] lemma shownIn_flush : shownIn (flush read data) = data := by
  rw [shownIn, filterMap_flush]
  exact List.filterMap_some

/-- A key begins no read, ends no line and is no output. -/
lemma Mark.IsKey.none {x : Mark} (hx : x.IsKey) :
    begunIn [x] = [] ∧ endedIn [x] = [] ∧ writtenIn [x] = [] ∧ shownIn [x] = [] := by
  cases hx with
  | echoed c => exact ⟨rfl, rfl, rfl, rfl⟩
  | erased => exact ⟨rfl, rfl, rfl, rfl⟩

end

/-! ## Transcripts -/

/-- What marks can look like, with the read that is pending and the output that is queued. -/
inductive Transcript : List Mark → Option ℕ → List String → Prop where
  | new : Transcript [] none []
  /-- output comes out at once while no read is pending -/
  | output {log} (before : Transcript log none []) (data : String) :
      Transcript (log ++ [.written data, .shown data]) none []
  /-- a read begins, and may take the place of another one -/
  | begin {log pending queued} (before : Transcript log pending queued) (prompt : List Char) :
      Transcript (log ++ [.begun (begunIn log).length prompt]) (some (begunIn log).length) queued
  | key {log read queued} (before : Transcript log (some read) queued) {x : Mark} (hx : x.IsKey) :
      Transcript (log ++ [x]) (some read) queued
  /-- output is held while a read is pending -/
  | hold {log read queued} (before : Transcript log (some read) queued) (data : String) :
      Transcript (log ++ [.written data]) (some read) (queued ++ [data])
  /-- a line ends, and all that is held comes out -/
  | finish {log read queued} (before : Transcript log (some read) queued) :
      Transcript (log ++ flush read queued) none []

namespace Transcript
variable {log pre mid post : List Mark} {pending : Option ℕ} {queued : List String} {read : ℕ}
  {prompt : List Char}

/-- Every write has come out once or is queued, in the order of writing. -/
lemma writes (h : Transcript log pending queued) : writtenIn log = shownIn log ++ queued := by
  induction h with
  | new => rfl
  | @output log before data ih =>
    have hwritten : writtenIn (log ++ [.written data, .shown data]) = writtenIn log ++ [data] :=
      writtenIn_append
    have hshown : shownIn (log ++ [.written data, .shown data]) = shownIn log ++ [data] :=
      shownIn_append
    rw [hwritten, hshown, ih, List.append_nil, List.append_nil]
  | @begin log pending queued before prompt ih =>
    have hwritten : writtenIn (log ++ [.begun (begunIn log).length prompt]) = writtenIn log :=
      writtenIn_append.trans (List.append_nil _)
    have hshown : shownIn (log ++ [.begun (begunIn log).length prompt]) = shownIn log :=
      shownIn_append.trans (List.append_nil _)
    rw [hwritten, hshown, ih]
  | key before hx ih =>
    obtain ⟨-, -, hwritten, hshown⟩ := hx.none
    rw [writtenIn_append, shownIn_append, hwritten, hshown, ih, List.append_nil, List.append_nil]
  | @hold log read queued before data ih =>
    have hwritten : writtenIn (log ++ [.written data]) = writtenIn log ++ [data] :=
      writtenIn_append
    have hshown : shownIn (log ++ [.written data]) = shownIn log :=
      shownIn_append.trans (List.append_nil _)
    rw [hwritten, hshown, ih, List.append_assoc]
  | finish before ih =>
    rw [writtenIn_append, shownIn_append, writtenIn_flush, shownIn_flush, List.append_nil,
      List.append_nil, ih]

lemma waiting_eq (h : Transcript log pending queued) : waitingIn log = queued := by
  rw [waitingIn, h.writes, List.drop_left]

/-- Nothing is queued while no read is pending. -/
lemma queued_eq_nil (h : Transcript log none queued) : queued = [] := by
  generalize hpending : none = pending at h
  cases h with
  | new => rfl
  | output => rfl
  | begin => cases hpending
  | key => cases hpending
  | hold => cases hpending
  | finish => rfl

/-- Reads are numbered as they begin. -/
lemma begunIn_eq (h : Transcript log pending queued) :
    begunIn log = List.range (begunIn log).length := by
  have hkept {log block : List Mark} (hblock : begunIn block = [])
      (ih : begunIn log = List.range (begunIn log).length) :
      begunIn (log ++ block) = List.range (begunIn (log ++ block)).length := by
    rw [begunIn_append, hblock, List.append_nil]
    exact ih
  induction h with
  | new => rfl
  | @begin log pending queued before prompt ih =>
    have hone : begunIn (log ++ [.begun (begunIn log).length prompt]) =
        begunIn log ++ [(begunIn log).length] := begunIn_append
    rw [hone, List.length_append, List.length_singleton, List.range_succ, ← ih]
  | output before data ih => exact hkept rfl ih
  | key before hx ih => exact hkept hx.none.1 ih
  | hold before data ih => exact hkept rfl ih
  | finish before ih => exact hkept begunIn_flush ih

/-- A read begins once. -/
lemma begin_unique (h : Transcript log pending queued) {pre' mid' : List Mark}
    {prompt' : List Char} (hlog : log = pre ++ .begun read prompt :: mid)
    (hlog' : log = pre' ++ .begun read prompt' :: mid') : pre = pre' ∧ mid = mid' := by
  have hnodup : (begunIn log).Nodup := by
    rw [h.begunIn_eq]
    exact List.nodup_range
  -- behind the first place the number does not come again
  have hlater (front between back : List Mark) (p q : List Char) :
      log ≠ front ++ .begun read p :: (between ++ .begun read q :: back) := by
    intro hsplit
    have hbegun : begunIn log =
        begunIn front ++ read :: (begunIn between ++ read :: begunIn back) := by
      rw [hsplit, begunIn_append]
      refine congrArg (begunIn front ++ ·) ?_
      exact congrArg (read :: ·) begunIn_append
    rw [hbegun] at hnodup
    have htail := (List.nodup_cons.1 (List.nodup_append.1 hnodup).2.1).1
    exact htail (List.mem_append_right _ List.mem_cons_self)
  rcases append_eq_append_cons (hlog.symm.trans hlog') with
    ⟨rest, hpre, -⟩ | ⟨skipped, hpre, hback⟩
  · rw [hpre, List.append_assoc] at hlog
    exact absurd hlog (hlater _ _ _ _ _)
  · cases skipped with
    | nil =>
      rw [List.append_nil] at hpre
      exact ⟨hpre.symm, (List.cons.inj hback).2⟩
    | cons x rest =>
      have hmid : mid = rest ++ .begun read prompt' :: mid' := (List.cons.inj hback).2
      rw [hmid] at hlog
      exact absurd hlog (hlater _ _ _ _ _)

/-- Since the pending read has begun, only its line shows; what is queued was waiting then or has
been written since. -/
lemma pending_split (h : Transcript log (some read) queued) :
    ∃ pre prompt mid, log = pre ++ .begun read prompt :: mid ∧ (∀ x ∈ mid, x.InLine) ∧
      queued = waitingIn pre ++ writtenIn mid := by
  generalize hpending : some read = pending at h
  induction h with
  | new => cases hpending
  | output => cases hpending
  | finish => cases hpending
  | @begin log pending queued before prompt ih =>
    cases hpending
    refine ⟨log, prompt, [], rfl, nofun, ?_⟩
    rw [before.waiting_eq]
    exact (List.append_nil queued).symm
  | @key log read queued before x hx ih =>
    obtain ⟨pre, prompt, mid, rfl, hmid, rfl⟩ := ih hpending
    refine ⟨pre, prompt, mid ++ [x], by simp, ?_, ?_⟩
    · exact List.forall_mem_append.2 ⟨hmid, List.forall_mem_singleton.2 (.inl hx)⟩
    · rw [writtenIn_append, hx.none.2.2.1, List.append_nil]
  | @hold log read queued before data ih =>
    obtain ⟨pre, prompt, mid, rfl, hmid, rfl⟩ := ih hpending
    refine ⟨pre, prompt, mid ++ [.written data], by simp, ?_, ?_⟩
    · exact List.forall_mem_append.2 ⟨hmid, List.forall_mem_singleton.2 (.inr ⟨data, rfl⟩)⟩
    · rw [writtenIn_append, ← List.append_assoc]
      rfl

end Transcript

/-- Between the start of a read and the end of its line nothing shows but the line; right after it
comes what was waiting when the read began, and then what was written during the read. -/
def LinesApart (log : List Mark) : Prop :=
  ∀ ⦃pre read prompt mid post⦄, log = pre ++ .begun read prompt :: mid ++ .ended read :: post →
    (∀ x ∈ mid, x.InLine) ∧ ∃ rest, post = (waitingIn pre ++ writtenIn mid).map .shown ++ rest

section
variable {log block pre mid post : List Mark} {read : ℕ} {prompt : List Char}

/-- A line that ended before has what came after it still, or it ends in what is new. -/
lemma LinesApart.append_cases (h : LinesApart log)
    (hlog : log ++ block = pre ++ .begun read prompt :: mid ++ .ended read :: post) :
    ((∀ x ∈ mid, x.InLine) ∧
        ∃ rest, post = (waitingIn pre ++ writtenIn mid).map .shown ++ rest) ∨
      ∃ skipped, pre ++ .begun read prompt :: mid = log ++ skipped ∧
        block = skipped ++ .ended read :: post := by
  rcases append_eq_append_cons hlog with ⟨rest, hbefore, rfl⟩ | hnew
  · obtain ⟨hmid, rest', rfl⟩ := h hbefore
    exact .inl ⟨hmid, rest' ++ block, List.append_assoc _ _ _⟩
  · exact .inr hnew

/-- Where no line ends, nothing changes for the lines before. -/
lemma LinesApart.append (h : LinesApart log) (hblock : endedIn block = []) :
    LinesApart (log ++ block) := by
  intro pre read prompt mid post hlog
  rcases h.append_cases hlog with hold | ⟨skipped, -, hback⟩
  · exact hold
  · have hmem : read ∈ endedIn block := by
      rw [hback, endedIn_append]
      exact List.mem_append_right _ List.mem_cons_self
    rw [hblock] at hmem
    exact absurd hmem List.not_mem_nil

/-- The line that ends is that of the pending read, and what is held comes out right after it. -/
lemma LinesApart.finish {queued : List String} (h : LinesApart log)
    (before : Transcript log (some read) queued) : LinesApart (log ++ flush read queued) := by
  intro pre read' prompt mid post hlog
  rcases h.append_cases hlog with hold | ⟨skipped, hpre, hback⟩
  · exact hold
  · cases skipped with
    | nil =>
      obtain ⟨hread, rfl⟩ := List.cons.inj hback
      cases hread
      rw [List.append_nil] at hpre
      obtain ⟨pre', prompt', mid', hlog', hmid, rfl⟩ := before.pending_split
      obtain ⟨rfl, rfl⟩ := before.begin_unique hpre.symm hlog'
      exact ⟨hmid, [], (List.append_nil _).symm⟩
    | cons x rest =>
      -- what comes out is no end of a line
      have hshown : Mark.ended read' ∈ queued.map Mark.shown := by
        rw [(List.cons.inj hback).2]
        exact List.mem_append_right _ List.mem_cons_self
      obtain ⟨data, -, hdata⟩ := List.mem_map.1 hshown
      cases hdata

lemma Transcript.linesApart {pending : Option ℕ} {queued : List String}
    (h : Transcript log pending queued) : LinesApart log := by
  induction h with
  | new =>
    intro pre read prompt mid post hlog
    exact absurd hlog.symm (List.append_ne_nil_of_right_ne_nil _ (List.cons_ne_nil _ _))
  | output before data ih => exact ih.append rfl
  | begin before prompt ih => exact ih.append rfl
  | key before hx ih => exact ih.append hx.none.2.1
  | hold before data ih => exact ih.append rfl
  | finish before ih => exact ih.finish before

end

/-! ## The marks of operations -/

/-- The marks of a key during a read. -/
def keyMarks (s : Session) (c : Char) : List Mark :=
  if c = backspace then
    match s.typed with
    | [] => []
    | _ :: _ => [.erased]
  else if c = enter then (s.pending.map fun read => flush read s.queued).getD []
  else [.echoed c]

/-- The marks of keys at any time: one that is held leaves none. -/
def inputMarks : Session → List Char → List Mark
  | _, [] => []
  | s, c :: rest =>
    (if s.state = .reading then s.keyMarks c else []) ++ (s.inputKey c).inputMarks rest

/-- The marks of held keys, up to the end of the line. -/
def replayMarks : Session → List Char → List Mark
  | _, [] => []
  | s, c :: rest =>
    if s.state = .reading then s.keyMarks c ++ (s.key c).replayMarks rest else []

/-- The prompt as it is shown. -/
def promptText (s : Session) (prompt : Option String) : List Char :=
  if s.echo then (prompt.getD "").toList else []

/-- A session that has begun a read, and has not come to the keys that are held. -/
def prompted (s : Session) (prompt : Option String) : Session :=
  let s := { s.endRead none with
    nextRead := s.nextRead + 1, pending := some s.nextRead, typed := [], state := .reading }
  if s.echo then s.emit (prompt.getD "").toList else s

def beginReadMarks (s : Session) (prompt : Option String) : List Mark :=
  .begun s.nextRead (s.promptText prompt) ::
    (s.prompted prompt).replayMarks (s.prompted prompt).typeahead

def writeMarks (s : Session) (data : String) : List Mark :=
  if s.state = .reading then [.written data] else [.written data, .shown data]

/-- The marks of an operation. -/
def Op.marks : Op → Session → List Mark
  | input data, s => s.inputMarks data.toList
  | feedLine data, s => s.inputMarks data.toList ++ (s.input data).inputMarks [enter]
  | beginRead prompt, s => s.beginReadMarks prompt
  | write data, s => s.writeMarks data

/-- The session after some operations. -/
def performed (s : Session) (ops : List Op) : Session :=
  ops.foldl (fun s op => op.apply s) s

/-- The marks of some operations, one after another. -/
def marksOf : Session → List Op → List Mark
  | _, [] => []
  | s, op :: rest => op.marks s ++ (op.apply s).marksOf rest

/-- What an operation writes. -/
def Op.written? : Op → Option String
  | write data => some data
  | _ => none

/-- The reads that have ended with a line, in their order. -/
def linesRead (s : Session) : List ℕ :=
  s.ends.reverse.filterMap fun e => e.2.map fun _ => e.1

/-! ## Sessions -/

/-- The display is a text with its newlines translated. -/
structure Shows (s : Session) (text : List Char) : Prop where
  screen : s.screen = (translateNewlines false text).1
  after : s.afterReturn = (translateNewlines false text).2

section
variable {s : Session} {text : List Char} {log : List Mark} {c : Char}

/-- What is put on the display follows what is there, and nothing else changes. -/
lemma Shows.emit (h : s.Shows text) (data : List Char) :
    ∃ shown after, s.emit data = { s with surface := shown, afterReturn := after } ∧
      Shows { s with surface := shown, afterReturn := after } (text ++ data) := by
  unfold Session.emit
  by_cases hdata : data.isEmpty = true
  · rw [if_pos hdata, List.isEmpty_iff.1 hdata, List.append_nil]
    exact ⟨s.surface, s.afterReturn, rfl, h⟩
  · rw [if_neg hdata]
    refine ⟨_, _, rfl, ?_, ?_⟩
    · rw [translateNewlines_append, ← h.after, ← h.screen]
      simp [Session.screen]
    · rw [translateNewlines_append, ← h.after]

lemma Shows.foldl_emit (h : s.Shows text) (pieces : List String) :
    ∃ shown after, pieces.foldl (fun s piece => s.emit piece.toList) s =
        { s with surface := shown, afterReturn := after } ∧
      Shows { s with surface := shown, afterReturn := after }
        (text ++ pieces.flatMap String.toList) := by
  induction pieces generalizing s text with
  | nil =>
    refine ⟨s.surface, s.afterReturn, rfl, ?_⟩
    rw [List.flatMap_nil, List.append_nil]
    exact h
  | cons piece rest ih =>
    obtain ⟨shown, after, hemit, hshows⟩ := h.emit piece.toList
    obtain ⟨shown', after', hrest, hshows'⟩ := ih hshows
    refine ⟨shown', after', ?_, ?_⟩
    · rw [List.foldl_cons, hemit, hrest]
    · rw [List.flatMap_cons, ← List.append_assoc]
      exact ⟨hshows'.screen, hshows'.after⟩

/-- The marks are what has happened at the session so far. -/
structure Told (s : Session) (log : List Mark) : Prop where
  shows : s.Shows (log.flatMap Mark.text)
  transcript : Transcript log s.pending s.queued
  reading : s.state = .reading ↔ s.pending.isSome = true
  begun : s.nextRead = (begunIn log).length
  ended : endedIn log = s.linesRead

lemma Told.exists_pending (h : Told s log) (hreading : s.state = .reading) :
    ∃ read, s.pending = some read :=
  Option.isSome_iff_exists.1 (h.reading.1 hreading)

lemma flatMap_flush (read : ℕ) (data : List String) :
    (flush read data).flatMap Mark.text = ['\r', '\n'] ++ data.flatMap String.toList := by
  rw [flush, List.flatMap_cons, List.flatMap_map]
  rfl

/-- The enter key ends the line, and what is queued comes out. -/
lemma Told.completeLine (h : Told s log) {read : ℕ} (hpending : s.pending = some read) :
    Told s.completeLine (log ++ flush read s.queued) := by
  have htranscript := h.transcript
  rw [hpending] at htranscript
  obtain ⟨shown₁, after₁, hcrlf, hshows₁⟩ := h.shows.emit ['\r', '\n']
  have hended : Shows { s with
      surface := shown₁, afterReturn := after₁, pending := none
      ends := (read, some (String.ofList s.typed.reverse)) :: s.ends, typed := []
      state := .writing }
      (log.flatMap Mark.text ++ ['\r', '\n']) := ⟨hshows₁.screen, hshows₁.after⟩
  obtain ⟨shown₂, after₂, hqueued, hshows₂⟩ := hended.foldl_emit s.queued
  have heq : s.completeLine = { s with
      surface := shown₂, afterReturn := after₂, pending := none
      ends := (read, some (String.ofList s.typed.reverse)) :: s.ends, typed := [], queued := []
      state := .idle } := by
    unfold Session.completeLine
    rw [hcrlf]
    simp only [endRead, hpending, Session.line, hqueued]
  rw [heq]
  refine ⟨?_, htranscript.finish, ?_, ?_, ?_⟩
  · rw [List.flatMap_append, flatMap_flush, ← List.append_assoc]
    exact ⟨hshows₂.screen, hshows₂.after⟩
  · simp
  · rw [begunIn_append, begunIn_flush, List.append_nil]
    exact h.begun
  · rw [endedIn_append, endedIn_flush, h.ended]
    simp [linesRead]

/-- A key that is no enter shows in the line only. -/
lemma Told.line (h : Told s log) {read : ℕ} (hpending : s.pending = some read) {x : Mark}
    (hx : x.IsKey) (typed : List Char) :
    Told (Session.emit { s with typed := typed } x.text) (log ++ [x]) := by
  have htranscript := h.transcript
  rw [hpending] at htranscript
  have htyped : Shows { s with typed := typed } (log.flatMap Mark.text) :=
    ⟨h.shows.screen, h.shows.after⟩
  obtain ⟨shown, after, hemit, hshows⟩ := htyped.emit x.text
  obtain ⟨hbegun, hended, -, -⟩ := hx.none
  rw [hemit]
  refine ⟨?_, ?_, h.reading, ?_, ?_⟩
  · rw [List.flatMap_append, List.flatMap_singleton]
    exact hshows
  · show Transcript _ s.pending s.queued
    rw [hpending]
    exact htranscript.key hx
  · rw [begunIn_append, hbegun, List.append_nil]
    exact h.begun
  · rw [endedIn_append, hended, List.append_nil]
    exact h.ended

/-- A read takes one more key. -/
lemma Told.key (h : Told s log) (hreading : s.state = .reading) (c : Char) :
    Told (s.key c) (log ++ s.keyMarks c) := by
  obtain ⟨read, hpending⟩ := h.exists_pending hreading
  unfold Session.key keyMarks
  by_cases hback : c = backspace
  · rw [if_pos hback, if_pos hback]
    cases htyped : s.typed with
    | nil =>
      dsimp only
      rw [List.append_nil]
      exact h
    | cons last rest => exact h.line hpending .erased rest
  · rw [if_neg hback, if_neg hback]
    by_cases henter : c = enter
    · rw [if_pos henter, if_pos henter, hpending]
      exact h.completeLine hpending
    · rw [if_neg henter, if_neg henter]
      exact h.line hpending (.echoed c) (c :: s.typed)

lemma Told.inputKey (h : Told s log) (c : Char) :
    Told (s.inputKey c) (log ++ if s.state = .reading then s.keyMarks c else []) := by
  unfold Session.inputKey
  by_cases hreading : s.state = .reading
  · rw [if_pos hreading, if_pos hreading]
    exact h.key hreading c
  · rw [if_neg hreading, if_neg hreading, List.append_nil]
    exact ⟨⟨h.shows.screen, h.shows.after⟩, h.transcript, h.reading, h.begun, h.ended⟩

lemma Told.input (h : Told s log) (keys : List Char) :
    Told (keys.foldl Session.inputKey s) (log ++ s.inputMarks keys) := by
  induction keys generalizing s log with
  | nil =>
    rw [inputMarks, List.append_nil]
    exact h
  | cons c rest ih =>
    rw [inputMarks, ← List.append_assoc]
    exact ih (h.inputKey c)

lemma Told.replay (h : Told s log) (held : List Char) :
    Told (s.replay held) (log ++ s.replayMarks held) := by
  induction held generalizing s log with
  | nil =>
    rw [replayMarks, List.append_nil]
    exact ⟨⟨h.shows.screen, h.shows.after⟩, h.transcript, h.reading, h.begun, h.ended⟩
  | cons c rest ih =>
    unfold Session.replay replayMarks
    by_cases hreading : s.state = .reading
    · rw [if_pos hreading, if_pos hreading, ← List.append_assoc]
      exact ih (h.key hreading c)
    · rw [if_neg hreading, if_neg hreading, List.append_nil]
      exact ⟨⟨h.shows.screen, h.shows.after⟩, h.transcript, h.reading, h.begun, h.ended⟩

/-- A read that another one replaces ends without a line. -/
lemma endRead_none (s : Session) :
    ∃ ends, s.endRead none = { s with pending := none, ends := ends } ∧
      linesRead { s with pending := none, ends := ends } = s.linesRead := by
  unfold endRead
  split
  · next read hpending => exact ⟨(read, none) :: s.ends, rfl, by simp [linesRead]⟩
  · next hpending => exact ⟨s.ends, by rw [← hpending], rfl⟩

/-- A read begins with its prompt, whether or not another one is pending. -/
lemma Told.prompted (h : Told s log) (prompt : Option String) :
    Told (s.prompted prompt) (log ++ [.begun s.nextRead (s.promptText prompt)]) := by
  obtain ⟨ends, hends, hlines⟩ := s.endRead_none
  have hcount : begunIn (log ++ [.begun s.nextRead (s.promptText prompt)]) =
      begunIn log ++ [s.nextRead] := begunIn_append
  have htranscript : Transcript (log ++ [.begun s.nextRead (s.promptText prompt)])
      (some s.nextRead) s.queued := by
    rw [h.begun]
    exact h.transcript.begin _
  -- the prompt is all that shows, or nothing is if prompts are not shown
  have hbegun (text : List Char) (shown : List (List Char)) (after : Bool)
      (htext : s.promptText prompt = text)
      (hshows : Shows { s with surface := shown, afterReturn := after }
        (log.flatMap Mark.text ++ text)) :
      Told { s with
        pending := some s.nextRead, ends := ends, nextRead := s.nextRead + 1, typed := []
        state := .reading, surface := shown, afterReturn := after }
        (log ++ [.begun s.nextRead (s.promptText prompt)]) := by
    refine ⟨?_, htranscript, by simp, ?_, ?_⟩
    · rw [List.flatMap_append, List.flatMap_singleton, Mark.text, htext]
      exact ⟨hshows.screen, hshows.after⟩
    · rw [hcount, List.length_append, ← h.begun]
      rfl
    · rw [endedIn_append]
      exact (List.append_nil _).trans (h.ended.trans hlines.symm)
  unfold Session.prompted
  rw [hends]
  by_cases hecho : s.echo = true
  · have hstarted : Shows { s with
        pending := some s.nextRead, ends := ends, nextRead := s.nextRead + 1, typed := []
        state := .reading } (log.flatMap Mark.text) := ⟨h.shows.screen, h.shows.after⟩
    obtain ⟨shown, after, hemit, hshows⟩ := hstarted.emit (prompt.getD "").toList
    dsimp only
    rw [if_pos hecho, hemit]
    exact hbegun _ shown after (if_pos hecho) ⟨hshows.screen, hshows.after⟩
  · dsimp only
    rw [if_neg hecho]
    refine hbegun [] s.surface s.afterReturn (if_neg hecho) ?_
    rw [List.append_nil]
    exact h.shows

lemma Told.beginRead (h : Told s log) (prompt : Option String) :
    Told (s.beginRead prompt).2 (log ++ s.beginReadMarks prompt) := by
  rw [beginReadMarks, List.append_cons]
  exact (h.prompted prompt).replay _

lemma Told.write (h : Told s log) (data : String) :
    Told (s.write data) (log ++ s.writeMarks data) := by
  have hbegun (block : List Mark) (hblock : begunIn block = []) :
      s.nextRead = (begunIn (log ++ block)).length := by
    rw [begunIn_append, hblock, List.append_nil]
    exact h.begun
  have hended (block : List Mark) (hblock : endedIn block = []) :
      endedIn (log ++ block) = s.linesRead := by
    rw [endedIn_append, hblock, List.append_nil]
    exact h.ended
  unfold Session.write writeMarks
  by_cases hreading : s.state = .reading
  · rw [if_pos hreading, if_pos hreading]
    obtain ⟨read, hpending⟩ := h.exists_pending hreading
    have htranscript := h.transcript
    rw [hpending] at htranscript
    refine ⟨?_, ?_, h.reading, hbegun _ rfl, hended _ rfl⟩
    · rw [List.flatMap_append, List.flatMap_singleton]
      show Shows _ (_ ++ [])
      rw [List.append_nil]
      exact ⟨h.shows.screen, h.shows.after⟩
    · show Transcript _ s.pending _
      rw [hpending]
      exact htranscript.hold data
  · rw [if_neg hreading, if_neg hreading]
    have hpending : s.pending = none :=
      Option.not_isSome_iff_eq_none.1 fun hsome => hreading (h.reading.2 hsome)
    have htranscript := h.transcript
    rw [hpending] at htranscript
    have hqueued : s.queued = [] := htranscript.queued_eq_nil
    rw [hqueued] at htranscript
    obtain ⟨shown, after, hemit, hshows⟩ := h.shows.emit data.toList
    rw [hemit]
    refine ⟨?_, ?_, h.reading, hbegun _ rfl, hended _ rfl⟩
    · rw [List.flatMap_append]
      simpa [Mark.text] using hshows
    · show Transcript _ s.pending s.queued
      rw [hpending, hqueued]
      exact htranscript.output data

/-- An operation goes on with the transcript. -/
lemma Told.apply (h : Told s log) (op : Op) : Told (op.apply s) (log ++ op.marks s) := by
  cases op with
  | input data => exact h.input data.toList
  | feedLine data =>
    show Told ((s.input data).input "\r") (log ++ (s.inputMarks data.toList ++ _))
    rw [← List.append_assoc]
    exact (h.input data.toList).input [enter]
  | beginRead prompt => exact h.beginRead prompt
  | write data => exact h.write data

lemma Told.performed (h : Told s log) (ops : List Op) :
    Told (s.performed ops) (log ++ s.marksOf ops) := by
  induction ops generalizing s log with
  | nil =>
    rw [marksOf, List.append_nil]
    exact h
  | cons op rest ih =>
    rw [marksOf, ← List.append_assoc]
    exact ih (h.apply op)

lemma told_new (id : String) (echo : Bool) : Told (.new id echo) [] :=
  ⟨⟨rfl, rfl⟩, .new, by simp [Session.new], rfl, rfl⟩

/-! ## Runs -/

/-- Keys begin no read and write nothing. -/
lemma keyMarks_plain (s : Session) (c : Char) :
    begunIn (s.keyMarks c) = [] ∧ writtenIn (s.keyMarks c) = [] := by
  unfold keyMarks
  split
  · split
    · exact ⟨rfl, rfl⟩
    · exact ⟨rfl, rfl⟩
  · split
    · cases s.pending with
      | none => exact ⟨rfl, rfl⟩
      | some read => exact ⟨begunIn_flush, writtenIn_flush⟩
    · exact ⟨rfl, rfl⟩

lemma inputMarks_plain (s : Session) (keys : List Char) :
    begunIn (s.inputMarks keys) = [] ∧ writtenIn (s.inputMarks keys) = [] := by
  induction keys generalizing s with
  | nil => exact ⟨rfl, rfl⟩
  | cons c rest ih =>
    obtain ⟨hbegun, hwritten⟩ := ih (s.inputKey c)
    rw [inputMarks, begunIn_append, writtenIn_append, hbegun, hwritten, List.append_nil,
      List.append_nil]
    split
    · exact s.keyMarks_plain c
    · exact ⟨rfl, rfl⟩

lemma replayMarks_plain (s : Session) (held : List Char) :
    begunIn (s.replayMarks held) = [] ∧ writtenIn (s.replayMarks held) = [] := by
  induction held generalizing s with
  | nil => exact ⟨rfl, rfl⟩
  | cons c rest ih =>
    obtain ⟨hbegun, hwritten⟩ := ih (s.key c)
    rw [replayMarks]
    split
    · rw [begunIn_append, writtenIn_append, hbegun, hwritten, List.append_nil, List.append_nil]
      exact s.keyMarks_plain c
    · exact ⟨rfl, rfl⟩

/-- The marks of an operation tell whether it is a read or a write. -/
lemma Op.marks_calls (op : Op) (s : Session) :
    (begunIn (op.marks s)).length = readCount [op] ∧
      writtenIn (op.marks s) = [op].filterMap Op.written? := by
  cases op with
  | input data =>
    obtain ⟨hbegun, hwritten⟩ := s.inputMarks_plain data.toList
    exact ⟨congrArg List.length hbegun, hwritten⟩
  | feedLine data =>
    obtain ⟨hbegun, hwritten⟩ := s.inputMarks_plain data.toList
    obtain ⟨hbegun', hwritten'⟩ := (s.input data).inputMarks_plain [enter]
    rw [Op.marks, begunIn_append, writtenIn_append, hbegun, hwritten, hbegun', hwritten']
    exact ⟨rfl, rfl⟩
  | beginRead prompt =>
    obtain ⟨hbegun, hwritten⟩ :=
      (s.prompted prompt).replayMarks_plain (s.prompted prompt).typeahead
    refine ⟨?_, hwritten⟩
    show (s.nextRead :: begunIn _).length = 1
    rw [hbegun]
    rfl
  | write data =>
    rw [Op.marks, writeMarks]
    split
    · exact ⟨rfl, rfl⟩
    · exact ⟨rfl, rfl⟩

lemma marksOf_calls (s : Session) (ops : List Op) :
    (begunIn (s.marksOf ops)).length = readCount ops ∧
      writtenIn (s.marksOf ops) = ops.filterMap Op.written? := by
  induction ops generalizing s with
  | nil => exact ⟨rfl, rfl⟩
  | cons op rest ih =>
    obtain ⟨hbegun, hwritten⟩ := op.marks_calls s
    obtain ⟨hbegun', hwritten'⟩ := ih (op.apply s)
    have hsplit : op :: rest = [op] ++ rest := rfl
    rw [marksOf, begunIn_append, writtenIn_append, List.length_append, hbegun, hbegun', hwritten,
      hwritten', hsplit, List.filterMap_append, readCount, readCount, readCount,
      List.countP_append]
    exact ⟨rfl, rfl⟩

/-- What can be said of the display of a session after some operations that have left these
marks. -/
structure Orderly (s : Session) (ops : List Op) (log : List Mark) : Prop where
  /-- the display is the text of the marks, with the newlines translated -/
  display : s.screen = (translateNewlines false (log.flatMap Mark.text)).1
  /-- all reads have left their marks, those that have yielded a line also at its end -/
  begun : begunIn log = List.range (readCount ops)
  ended : endedIn log = s.linesRead
  /-- each write has come out once and in one piece, or is queued, in the order of writing -/
  written : ops.filterMap Op.written? = shownIn log ++ s.queued
  marked : writtenIn log = ops.filterMap Op.written?
  /-- between a read and the end of its line only the line shows; right after it comes what has
  been written meanwhile, behind what reads that were replaced have left -/
  lines : LinesApart log
  /-- since the pending read has begun only its line has shown; queued is what has been written
  meanwhile, behind what reads that were replaced have left -/
  pending : ∀ read, s.pending = some read → ∃ pre prompt mid,
    log = pre ++ .begun read prompt :: mid ∧ (∀ x ∈ mid, x.InLine) ∧
      s.queued = waitingIn pre ++ writtenIn mid
  /-- nothing is queued while no read is pending -/
  idle : s.pending = none → s.queued = []

/-- Output is neither lost nor doubled nor reordered, and never shows in a line that is being
typed, whatever operations come in whatever order. -/
theorem output_in_order (id : String) (echo : Bool) (ops : List Op) :
    Orderly ((Session.new id echo).performed ops) ops ((Session.new id echo).marksOf ops) := by
  have htold := (told_new id echo).performed ops
  obtain ⟨hcount, hwritten⟩ := (Session.new id echo).marksOf_calls ops
  have htranscript := htold.transcript
  rw [List.nil_append] at htold htranscript
  refine ⟨htold.shows.screen, ?_, htold.ended, ?_, hwritten, htranscript.linesApart, ?_, ?_⟩
  · rw [htranscript.begunIn_eq, hcount]
  · rw [← hwritten]
    exact htranscript.writes
  · intro read hpending
    rw [hpending] at htranscript
    exact htranscript.pending_split
  · intro hpending
    rw [hpending] at htranscript
    exact htranscript.queued_eq_nil

/-- A read that takes the place of another one gets the line, and both writes come out after it. -/
example : (Session.new "tty" true).marksOf
    [.beginRead (some "a? "), .write "x", .beginRead (some "b? "), .write "y", .input "k\r",
      .write "z"] =
    [.begun 0 ['a', '?', ' '], .written "x", .begun 1 ['b', '?', ' '], .written "y", .echoed 'k',
      .ended 1, .shown "x", .shown "y", .written "z", .shown "z"] :=
  rfl

end
end Session
end WorkerHost
