import Mathlib.Data.List.Induction
import Mathlib.Tactic.Common
import WorkerHost.Terminal.Session

/-!
# What the reads of a terminal session yield

Keystrokes are cut at each enter, and each segment is edited by itself: `segments`, `edit`. A
session gives the segments to its reads in their order. `Session.Consumed s n keys` says so of the
keystrokes that reads have taken, `Session.Fed s n keys` of all keystrokes, those included that
are held.

* `Session.Consumed.key`: a read takes one more key;
* `Session.Fed.inputKey`, `Session.Fed.beginRead`: a key that comes, and a read that begins;
* `Session.Fed.served`: what has become of each read, and of each key;
* `Session.Run.reads_schedule_independent`: the same after any operations, whatever their order.
-/

namespace WorkerHost

/-! ## Segments -/

/-- The line that the keys of a segment come to. -/
def edit (keys : List Char) : List Char :=
  keys.foldl (fun line c => if c = Session.backspace then line.dropLast else line ++ [c]) []

/-- One more key after complete segments and an unfinished one. -/
def cutKey (cut : List (List Char) × List Char) (c : Char) : List (List Char) × List Char :=
  if c = Session.enter then (cut.1 ++ [cut.2], []) else (cut.1, cut.2 ++ [c])

/-- The complete segments of keystrokes: what stands before each enter. -/
def segments (keys : List Char) : List (List Char) :=
  (keys.foldl cutKey ([], [])).1

/-- What follows the last enter. -/
def unfinished (keys : List Char) : List Char :=
  (keys.foldl cutKey ([], [])).2

section
variable {keys more : List Char} {c : Char}

lemma edit_append_backspace : edit (keys ++ [Session.backspace]) = (edit keys).dropLast := by
  simp only [edit, List.foldl_append, List.foldl_cons, List.foldl_nil, if_pos]

lemma edit_append_of_ne (hc : c ≠ Session.backspace) : edit (keys ++ [c]) = edit keys ++ [c] := by
  simp only [edit, List.foldl_append, List.foldl_cons, List.foldl_nil, if_neg hc]

lemma segments_append_enter :
    segments (keys ++ [Session.enter]) = segments keys ++ [unfinished keys] := by
  simp only [segments, unfinished, List.foldl_append, List.foldl_cons, List.foldl_nil, cutKey,
    if_pos]

lemma unfinished_append_enter : unfinished (keys ++ [Session.enter]) = [] := by
  simp only [unfinished, List.foldl_append, List.foldl_cons, List.foldl_nil, cutKey, if_pos]

lemma segments_append_of_ne (hc : c ≠ Session.enter) : segments (keys ++ [c]) = segments keys := by
  simp only [segments, List.foldl_append, List.foldl_cons, List.foldl_nil, cutKey, if_neg hc]

lemma unfinished_append_of_ne (hc : c ≠ Session.enter) :
    unfinished (keys ++ [c]) = unfinished keys ++ [c] := by
  simp only [unfinished, List.foldl_append, List.foldl_cons, List.foldl_nil, cutKey, if_neg hc]

/-- The segments are the keystrokes, cut. -/
lemma join_segments (keys : List Char) :
    (segments keys).flatMap (· ++ [Session.enter]) ++ unfinished keys = keys := by
  induction keys using List.reverseRecOn with
  | nil => rfl
  | append_singleton keys c ih =>
    by_cases hc : c = Session.enter
    · subst hc
      rw [segments_append_enter, unfinished_append_enter, List.flatMap_append, List.append_nil,
        List.flatMap_singleton, ← List.append_assoc, ih]
    · rw [segments_append_of_ne hc, unfinished_append_of_ne hc, ← List.append_assoc, ih]

/-- Cutting can go on after an enter as from the beginning. -/
lemma segments_append (hkeys : unfinished keys = []) :
    segments (keys ++ more) = segments keys ++ segments more ∧
      unfinished (keys ++ more) = unfinished more := by
  induction more using List.reverseRecOn with
  | nil => exact ⟨by simp [segments], by simpa [unfinished] using hkeys⟩
  | append_singleton more c ih =>
    -- the induction follows the keys in the order in which they come
    obtain ⟨hsegments, hrest⟩ := ih
    rw [← List.append_assoc]
    by_cases hc : c = Session.enter
    · subst hc
      rw [segments_append_enter, segments_append_enter, unfinished_append_enter,
        unfinished_append_enter, hsegments, hrest, List.append_assoc]
      exact ⟨rfl, rfl⟩
    · rw [segments_append_of_ne hc, segments_append_of_ne hc, unfinished_append_of_ne hc,
        unfinished_append_of_ne hc, hrest]
      exact ⟨hsegments, rfl⟩

end

namespace Session
variable {s : Session} {n : ℕ} {keys more : List Char} {c : Char}

/-! ## The display -/

/-- Output changes nothing but the display. -/
lemma emit_eq (s : Session) (data : List Char) :
    ∃ shown after, s.emit data = { s with surface := shown, afterReturn := after } := by
  unfold emit
  split
  · exact ⟨s.surface, s.afterReturn, rfl⟩
  · exact ⟨_, _, rfl⟩

lemma foldl_emit_eq (s : Session) (pieces : List String) :
    ∃ shown after, pieces.foldl (fun s piece => s.emit piece.toList) s =
      { s with surface := shown, afterReturn := after } := by
  induction pieces generalizing s with
  | nil => exact ⟨s.surface, s.afterReturn, rfl⟩
  | cons piece rest ih =>
    obtain ⟨shown, after, hemit⟩ := s.emit_eq piece.toList
    rw [List.foldl_cons, hemit]
    exact ih _

/-! ## Keys that reads have taken -/

/-- What the reads that have ended yield: each the segment of its number. -/
def yields (segs : List (List Char)) : List (Nat × Option String) :=
  segs.mapIdx fun i seg => (i, some (String.ofList (edit seg)))

/-- So many reads have begun, and they have taken exactly these keys: each complete segment has
ended a read, and the unfinished one is the line of the read that is pending. -/
structure Consumed (s : Session) (n : ℕ) (keys : List Char) : Prop where
  count : s.nextRead = n
  ends : s.ends.reverse = yields (segments keys)
  mode : (s.state = .reading ∧ n = (segments keys).length + 1 ∧
      s.pending = some (segments keys).length ∧ s.typed.reverse = edit (unfinished keys)) ∨
    (s.state = .idle ∧ n = (segments keys).length ∧ s.pending = none ∧ s.typed = [] ∧
      unfinished keys = [])

lemma yields_append (segs : List (List Char)) (seg : List Char) :
    yields (segs ++ [seg]) = yields segs ++ [(segs.length, some (String.ofList (edit seg)))] :=
  List.mapIdx_concat

/-- The enter key ends the pending read with the line that its segment comes to. -/
lemma Consumed.completeLine (h : Consumed s n keys) (hreading : s.state = .reading) :
    Consumed s.completeLine n (keys ++ [enter]) := by
  obtain ⟨-, hn, hpending, htyped⟩ | ⟨hidle, -⟩ := h.mode
  · obtain ⟨shown₁, after₁, hemit⟩ := s.emit_eq ['\r', '\n']
    unfold Session.completeLine
    rw [hemit]
    simp only [endRead, hpending]
    -- what was queued comes out now, and shows on the display only
    obtain ⟨shown₂, after₂, hqueued⟩ := foldl_emit_eq
      { s with
        state := .writing, typed := [], pending := none, surface := shown₁, afterReturn := after₁
        ends := ((segments keys).length, some (String.ofList (edit (unfinished keys)))) :: s.ends }
      s.queued
    have hline : String.ofList s.typed.reverse = String.ofList (edit (unfinished keys)) := by
      rw [htyped]
    simp only [line, hline, hqueued]
    refine ⟨h.count, ?_, .inr ⟨rfl, ?_, rfl, rfl, unfinished_append_enter⟩⟩
    · rw [segments_append_enter, yields_append, ← h.ends, List.reverse_cons]
    · rw [segments_append_enter, List.length_append]
      exact hn
  · rw [hreading] at hidle
    cases hidle

/-- A key that is no enter changes the line only. -/
lemma Consumed.changeLine (h : Consumed s n keys) (hreading : s.state = .reading) (hc : c ≠ enter)
    (typed : List Char) (htyped : typed.reverse = edit (unfinished keys ++ [c]))
    (shown : List (List Char)) (after : Bool) :
    Consumed { s with typed := typed, surface := shown, afterReturn := after } n (keys ++ [c]) := by
  obtain ⟨-, hn, hpending, -⟩ | ⟨hidle, -⟩ := h.mode
  · refine ⟨h.count, ?_, .inl ⟨hreading, ?_, ?_, ?_⟩⟩
    · rw [segments_append_of_ne hc]
      exact h.ends
    · rw [segments_append_of_ne hc]
      exact hn
    · rw [segments_append_of_ne hc]
      exact hpending
    · rw [unfinished_append_of_ne hc]
      exact htyped
  · rw [hreading] at hidle
    cases hidle

lemma Consumed.typed_reverse (h : Consumed s n keys) (hreading : s.state = .reading) :
    s.typed.reverse = edit (unfinished keys) := by
  obtain ⟨-, -, -, htyped⟩ | ⟨hidle, -⟩ := h.mode
  · exact htyped
  · rw [hreading] at hidle
    cases hidle

/-- A read takes one more key. -/
lemma Consumed.key (h : Consumed s n keys) (hreading : s.state = .reading) (c : Char) :
    Consumed (s.key c) n (keys ++ [c]) := by
  have htyped := h.typed_reverse hreading
  unfold Session.key
  -- neither a backspace nor an ordinary key ends the read
  by_cases hback : c = backspace
  · have hc : c ≠ enter := by
      rw [hback]
      decide
    rw [if_pos hback]
    cases hline : s.typed with
    | nil =>
      refine h.changeLine hreading hc s.typed ?_ s.surface s.afterReturn
      rw [hback, edit_append_backspace, ← htyped, hline]
      rfl
    | cons last rest =>
      obtain ⟨shown, after, hemit⟩ := emit_eq { s with typed := rest } erase
      dsimp only
      rw [hemit]
      refine h.changeLine hreading hc rest ?_ shown after
      rw [hback, edit_append_backspace, ← htyped, hline, List.reverse_cons, List.dropLast_concat]
  · rw [if_neg hback]
    by_cases hc : c = enter
    · rw [if_pos hc, hc]
      exact h.completeLine hreading
    · rw [if_neg hc]
      obtain ⟨shown, after, hemit⟩ := emit_eq { s with typed := c :: s.typed } [c]
      rw [hemit]
      refine h.changeLine hreading hc (c :: s.typed) ?_ shown after
      rw [edit_append_of_ne hback, ← htyped, List.reverse_cons]

/-! ## All keys -/

/-- So many reads have begun, and these keys have come: reads have taken some, the others are
held. -/
structure Fed (s : Session) (n : ℕ) (keys : List Char) : Prop where
  taken : ∃ front, keys = front ++ s.typeahead ∧ s.Consumed n front
  held : s.state = .reading → s.typeahead = []

lemma Consumed.replay {held : List Char} (h : Consumed s n keys) :
    Fed (s.replay held) n (keys ++ held) := by
  induction held generalizing s keys with
  | nil => exact ⟨⟨keys, rfl, h.count, h.ends, h.mode⟩, fun _ => rfl⟩
  | cons c rest ih =>
    -- a read that is over takes no more: this key and all after it stay held
    unfold Session.replay
    by_cases hreading : s.state = .reading
    · rw [if_pos hreading, List.append_cons]
      exact ih (h.key hreading c)
    · rw [if_neg hreading]
      exact ⟨⟨keys, rfl, h.count, h.ends, h.mode⟩, fun h => absurd h hreading⟩

lemma completeLine_typeahead (s : Session) : s.completeLine.typeahead = s.typeahead := by
  obtain ⟨shown₁, after₁, hemit⟩ := s.emit_eq ['\r', '\n']
  unfold completeLine endRead
  rw [hemit]
  cases hpending : s.pending with
  | some read =>
    dsimp only
    obtain ⟨shown₂, after₂, hqueued⟩ := foldl_emit_eq _ s.queued
    rw [hqueued]
  | none =>
    dsimp only
    obtain ⟨shown₂, after₂, hqueued⟩ := foldl_emit_eq _ s.queued
    rw [hqueued]

/-- A read takes no key but the one it is given. -/
lemma key_typeahead (s : Session) (c : Char) : (s.key c).typeahead = s.typeahead := by
  unfold key
  split
  · split
    · rfl
    · obtain ⟨shown, after, hemit⟩ := emit_eq _ erase
      rw [hemit]
  · split
    · exact s.completeLine_typeahead
    · obtain ⟨shown, after, hemit⟩ := emit_eq _ [c]
      rw [hemit]

/-- A key goes to the pending read, or it is held. -/
lemma Fed.inputKey (h : Fed s n keys) (c : Char) : Fed (s.inputKey c) n (keys ++ [c]) := by
  obtain ⟨front, rfl, hfront⟩ := h.taken
  unfold Session.inputKey
  by_cases hreading : s.state = .reading
  · have hheld := h.held hreading
    rw [if_pos hreading, hheld, List.append_nil]
    refine ⟨⟨front ++ [c], ?_, hfront.key hreading c⟩, fun _ => ?_⟩
    · rw [key_typeahead, hheld, List.append_nil]
    · rw [key_typeahead, hheld]
  · rw [if_neg hreading, List.append_assoc]
    exact ⟨⟨front, rfl, hfront.count, hfront.ends, hfront.mode⟩, fun h => absurd h hreading⟩

lemma Fed.foldl_inputKey (h : Fed s n keys) (more : List Char) :
    Fed (more.foldl Session.inputKey s) n (keys ++ more) := by
  induction more generalizing s keys with
  | nil =>
    rw [List.append_nil]
    exact h
  | cons c rest ih =>
    rw [List.append_cons]
    exact ih (h.inputKey c)

/-- A read that begins takes what is held, up to the first enter. -/
lemma Fed.beginRead (h : Fed s n keys) (hpending : s.pending = none) (prompt : Option String) :
    Fed (s.beginRead prompt).2 (n + 1) keys := by
  obtain ⟨front, rfl, hfront⟩ := h.taken
  obtain ⟨-, -, hsome, -⟩ | ⟨-, hn, -, -, hrest⟩ := hfront.mode
  · rw [hpending] at hsome
    cases hsome
  -- before it is given what is held, the new read has taken no key of its segment
  · have hbegun (shown : List (List Char)) (after : Bool) :
        Consumed { s with
          nextRead := s.nextRead + 1, pending := some s.nextRead, typed := [], state := .reading
          surface := shown, afterReturn := after } (n + 1) front := by
      refine ⟨congrArg (· + 1) hfront.count, hfront.ends, .inl ⟨rfl, congrArg (· + 1) hn, ?_, ?_⟩⟩
      · rw [hfront.count, hn]
      · rw [hrest]
        rfl
    unfold Session.beginRead endRead
    simp only [hpending]
    by_cases hecho : s.echo = true
    · rw [if_pos hecho]
      obtain ⟨shown, after, hemit⟩ := emit_eq { s with
        nextRead := s.nextRead + 1, pending := some s.nextRead, typed := [], state := .reading }
        (prompt.getD "").toList
      rw [hemit]
      exact (hbegun shown after).replay
    · rw [if_neg hecho]
      exact (hbegun s.surface s.afterReturn).replay

lemma Fed.write (h : Fed s n keys) (data : String) : Fed (s.write data) n keys := by
  obtain ⟨front, hkeys, hfront⟩ := h.taken
  unfold Session.write
  split
  · exact ⟨⟨front, hkeys, hfront.count, hfront.ends, hfront.mode⟩, h.held⟩
  · obtain ⟨shown, after, hemit⟩ := s.emit_eq data.toList
    rw [hemit]
    exact ⟨⟨front, hkeys, hfront.count, hfront.ends, hfront.mode⟩, h.held⟩

lemma fed_new (id : String) (echo : Bool) : Fed (.new id echo) 0 [] :=
  ⟨⟨[], rfl, rfl, rfl, .inr ⟨rfl, rfl, rfl, rfl, rfl⟩⟩, fun _ => rfl⟩

/-! ## Runs -/

/-- What can be done with a session. -/
inductive Op where
  | input (data : String)
  | feedLine (data : String)
  | beginRead (prompt : Option String)
  | write (data : String)

namespace Op

def apply : Op → Session → Session
  | input data, s => s.input data
  | feedLine data, s => s.feedLine data
  | beginRead prompt, s => (s.beginRead prompt).2
  | write data, s => s.write data

/-- The keys that an operation brings. -/
def keystrokes : Op → List Char
  | input data => data.toList
  | feedLine data => data.toList ++ [enter]
  | _ => []

def isBeginRead : Op → Bool
  | beginRead _ => true
  | _ => false

end Op

/-- The session after some operations, where no read begins before the one before it is over. -/
inductive Run (id : String) (echo : Bool) : Session → List Op → Prop where
  | new : Run id echo (.new id echo) []
  | step {s ops} (before : Run id echo s ops) (op : Op)
      (hpending : op.isBeginRead = true → s.pending = none) : Run id echo (op.apply s) (ops ++ [op])

/-- All keys that have come. -/
def keysOf (ops : List Op) : List Char :=
  ops.flatMap Op.keystrokes

/-- How many reads have begun. -/
def readCount (ops : List Op) : ℕ :=
  ops.countP Op.isBeginRead

variable {id : String} {echo : Bool} {ops : List Op}

lemma Fed.apply (h : Fed s n keys) {op : Op} (hpending : op.isBeginRead = true → s.pending = none) :
    Fed (op.apply s) (n + [op].countP Op.isBeginRead) (keys ++ op.keystrokes) := by
  cases op with
  | input data => exact h.foldl_inputKey data.toList
  | feedLine data =>
    show Fed _ n (keys ++ (data.toList ++ [enter]))
    rw [← List.append_assoc]
    exact (h.foldl_inputKey data.toList).foldl_inputKey [enter]
  | beginRead prompt =>
    show Fed _ (n + 1) (keys ++ [])
    rw [List.append_nil]
    exact h.beginRead (hpending rfl) prompt
  | write data =>
    show Fed _ n (keys ++ [])
    rw [List.append_nil]
    exact h.write data

lemma Run.fed (run : Run id echo s ops) : Fed s (readCount ops) (keysOf ops) := by
  induction run with
  | new => exact fed_new id echo
  | @step s ops before op hpending ih =>
    have happly := ih.apply hpending
    rw [readCount, keysOf, List.countP_append, List.flatMap_append, List.flatMap_singleton]
    exact happly

/-- What a session looks like once so many reads have begun and these keys have come. -/
structure Served (s : Session) (n : ℕ) (keys : List Char) : Prop where
  /-- the next read has the next number -/
  count : s.nextRead = n
  /-- a read has ended as soon as it has begun and its segment is complete, and with nothing else -/
  ended : ∀ i, s.endOf? i =
    if i < n then (segments keys)[i]?.map fun seg => some (String.ofList (edit seg)) else none
  /-- reads end once each, in their order -/
  ends : s.ends.reverse = yields ((segments keys).take n)
  /-- the line of a read that is ahead of the segments -/
  waiting : (segments keys).length < n → n = (segments keys).length + 1 ∧
    s.pending = some (segments keys).length ∧ s.line = String.ofList (edit (unfinished keys)) ∧
    s.typeahead = []
  /-- what is held while no read is ahead of the segments -/
  held : n ≤ (segments keys).length → s.pending = none ∧ s.line = "" ∧
    keys = ((segments keys).take n).flatMap (· ++ [enter]) ++ s.typeahead

lemma find?_yields (segs : List (List Char)) (i : ℕ) :
    ((yields segs).reverse.find? (·.1 == i)).map (·.2) =
      segs[i]?.map fun seg => some (String.ofList (edit seg)) := by
  induction segs using List.reverseRecOn with
  | nil => rfl
  | append_singleton segs seg ih =>
    rw [yields_append, List.reverse_append, List.reverse_singleton, List.singleton_append]
    by_cases hi : segs.length = i
    · rw [List.find?_cons_of_pos (by simpa using hi), ← hi, List.getElem?_concat_length]
      rfl
    · rw [List.find?_cons_of_neg (by simpa using hi), ih, List.getElem?_append]
      by_cases hlt : i < segs.length
      · rw [if_pos hlt]
      · rw [if_neg hlt, List.getElem?_eq_none (by omega), List.getElem?_eq_none (by simp; omega)]

lemma Consumed.segments_take (h : Consumed s n keys) (hidle : s.state = .reading → more = []) :
    (segments (keys ++ more)).take n = segments keys := by
  obtain ⟨hreading, hn, -⟩ | ⟨-, hn, -, -, hrest⟩ := h.mode
  · rw [hidle hreading, List.append_nil, List.take_of_length_le (by omega)]
  · rw [(segments_append hrest).1, hn, List.take_left]

lemma Fed.served (h : Fed s n keys) : Served s n keys := by
  obtain ⟨front, rfl, hfront⟩ := h.taken
  have htake := hfront.segments_take h.held
  have hends : s.ends.reverse = yields ((segments (front ++ s.typeahead)).take n) := by
    rw [htake]
    exact hfront.ends
  refine ⟨hfront.count, fun i => ?_, hends, fun hahead => ?_, fun hbehind => ?_⟩
  · have hfind := find?_yields ((segments (front ++ s.typeahead)).take n) i
    rw [← hends, List.reverse_reverse, List.getElem?_take] at hfind
    rw [endOf?, hfind]
    split
    · rfl
    · rfl
  -- without a pending read there are at least as many segments as reads
  · obtain ⟨hreading, hn, hpending, htyped⟩ | ⟨-, hn, -, -, hrest⟩ := hfront.mode
    · rw [h.held hreading, List.append_nil]
      exact ⟨hn, hpending, by rw [line, htyped], rfl⟩
    · rw [(segments_append hrest).1, List.length_append] at hahead
      omega
  · obtain ⟨hreading, hn, -⟩ | ⟨-, hn, hpending, htyped, hrest⟩ := hfront.mode
    · rw [h.held hreading, List.append_nil] at hbehind
      omega
    · refine ⟨hpending, by rw [line, htyped]; rfl, ?_⟩
      -- the keys taken are whole segments, the others are held
      have hjoin := join_segments front
      rw [hrest, List.append_nil] at hjoin
      rw [htake, hjoin]

/-- What the reads yield, what is in the line and what is held depends on the keystrokes and on
how many reads have begun, however they come and whenever the reads begin. -/
theorem Run.reads_schedule_independent (run : Run id echo s ops) :
    Served s (readCount ops) (keysOf ops) ∧
      ∀ {id' echo' s' ops'}, Run id' echo' s' ops' → keysOf ops' = keysOf ops →
        readCount ops' = readCount ops →
        s'.ends = s.ends ∧ s'.pending = s.pending ∧ s'.line = s.line ∧
          s'.typeahead = s.typeahead := by
  have hserved := run.fed.served
  refine ⟨hserved, fun run' hkeys hreads => ?_⟩
  have hserved' := run'.fed.served
  rw [hkeys, hreads] at hserved'
  refine ⟨?_, ?_⟩
  · have hends := hserved'.ends.trans hserved.ends.symm
    exact List.reverse_inj.1 hends
  · by_cases hahead : (segments (keysOf ops)).length < readCount ops
    · obtain ⟨-, hpending, hline, htypeahead⟩ := hserved.waiting hahead
      obtain ⟨-, hpending', hline', htypeahead'⟩ := hserved'.waiting hahead
      exact ⟨hpending'.trans hpending.symm, hline'.trans hline.symm,
        htypeahead'.trans htypeahead.symm⟩
    · obtain ⟨hpending, hline, hkeys⟩ := hserved.held (by omega)
      obtain ⟨hpending', hline', hkeys'⟩ := hserved'.held (by omega)
      exact ⟨hpending'.trans hpending.symm, hline'.trans hline.symm,
        List.append_cancel_left (hkeys'.symm.trans hkeys)⟩

/-- A line that is held when its read begins, and a second read that waits. -/
theorem Run.reads_schedule_independent_heldLine :
    ∃ s ops, Run "tty" true s ops ∧ keysOf ops = ['a', 'b', enter, 'c'] ∧ readCount ops = 2 ∧
      Served s (readCount ops) (keysOf ops) ∧
      ∀ {id' echo' s' ops'}, Run id' echo' s' ops' → keysOf ops' = keysOf ops →
        readCount ops' = readCount ops →
        s'.ends = s.ends ∧ s'.pending = s.pending ∧ s'.line = s.line ∧
          s'.typeahead = s.typeahead := by
  have hheld : Run "tty" true _ [.input "ab\r"] := .step .new _ nofun
  have hfirst : Run "tty" true _ [.input "ab\r", .beginRead none] := hheld.step _ fun _ => rfl
  have hsecond : Run "tty" true _ [.input "ab\r", .beginRead none, .beginRead none] :=
    hfirst.step _ fun _ => by decide
  have hrun : Run "tty" true _ [.input "ab\r", .beginRead none, .beginRead none, .input "c"] :=
    hsecond.step _ nofun
  exact ⟨_, _, hrun, by decide, rfl, hrun.reads_schedule_independent⟩

end Session
end WorkerHost
