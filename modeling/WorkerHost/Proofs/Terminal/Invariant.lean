import Mathlib.Data.List.Nodup
import WorkerHost.Proofs.Terminal.Output

/-!
# What holds of a terminal session between operations

A session has a state, a line, a queue of output, held keys and a read that may be pending, and
every key can change several of them at once. `Sound` is what holds between two keys, also those
that a read takes from the held ones, and `Settled` what holds between two operations. The reads
are counted by their slots: those that have ended, in the order in which they began, and then the
pending one.

* `key_cases`: a key changes the line and the display, or it completes the line;
* `Sound.key`, `Sound.prompted`: one more key, and a read that begins;
* `ReadsOn`: what comes between two reads only ends reads with a line;
* `Settled.apply`: an operation leaves a session settled;
* `slots_accounted`: what has become of every read after any operations.
-/

namespace WorkerHost
namespace Session

section
variable {s s' s'' : Session} {c : Char} {read : ℕ}

/-! ## What a key can do -/

/-- The pending read ends, and nothing else changes. -/
lemma endRead_eq (s : Session) (line : Option String) : s.endRead line =
    { s with
      pending := none, ends := s.pending.toList.map (fun read => (read, line)) ++ s.ends } := by
  unfold endRead
  split
  · next read hpending =>
    rw [hpending]
    rfl
  · next hpending =>
    rw [hpending, Option.toList_none, List.map_nil, List.nil_append, ← hpending]

lemma completeLine_eq (s : Session) : ∃ shown after, s.completeLine =
    { s with
      state := .idle, typed := [], pending := none, queued := [], surface := shown
      afterReturn := after
      ends := s.pending.toList.map (fun read => (read, some s.line)) ++ s.ends } := by
  obtain ⟨shown, after, hemit⟩ := s.emit_eq ['\r', '\n']
  unfold completeLine
  rw [hemit]
  dsimp only
  rw [endRead_eq]
  -- what was queued comes out now, and shows on the display only
  obtain ⟨shown, after, hqueued⟩ := foldl_emit_eq _ s.queued
  dsimp only
  rw [hqueued]
  exact ⟨shown, after, rfl⟩

/-- A key changes the line and the display, or it completes the line. -/
lemma key_cases (s : Session) (c : Char) :
    (∃ typed shown after, s.key c =
      { s with typed := typed, surface := shown, afterReturn := after }) ∨
      s.key c = s.completeLine := by
  unfold key
  split
  · split
    · exact .inl ⟨s.typed, s.surface, s.afterReturn, rfl⟩
    · next last rest _ =>
      obtain ⟨shown, after, hemit⟩ := emit_eq { s with typed := rest } erase
      exact .inl ⟨rest, shown, after, hemit⟩
  · split
    · exact .inr rfl
    · obtain ⟨shown, after, hemit⟩ := emit_eq { s with typed := c :: s.typed } [c]
      exact .inl ⟨c :: s.typed, shown, after, hemit⟩

lemma prompted_eq (s : Session) (prompt : Option String) :
    ∃ shown after, s.prompted prompt =
      { s with
        nextRead := s.nextRead + 1, pending := some s.nextRead, typed := [], state := .reading
        surface := shown, afterReturn := after
        ends := s.pending.toList.map (fun read => (read, none)) ++ s.ends } := by
  unfold prompted
  rw [endRead_eq]
  dsimp only
  split
  · obtain ⟨shown, after, hemit⟩ := emit_eq _ (prompt.getD "").toList
    exact ⟨shown, after, hemit⟩
  · exact ⟨s.surface, s.afterReturn, rfl⟩

/-! ## Between two keys -/

/-- The slots of the reads that have begun: of those that have ended, the first one first, and of
the pending one. -/
def slots (s : Session) : List ℕ :=
  s.ends.reverse.map (·.1) ++ s.pending.toList

/-- What holds between two keys. -/
structure Sound (s : Session) : Prop where
  /-- a line is never left half completed -/
  state : s.state = .idle ∨ s.state = .reading
  reading : s.state = .reading ↔ s.pending.isSome = true
  idle : s.state = .idle → s.line = "" ∧ s.queued = []
  /-- each slot is that of one read, which has ended once or is pending -/
  slots : s.slots = List.range s.nextRead

lemma ne_idle (hreading : s.state = .reading) : s.state ≠ .idle := by
  rw [hreading]
  decide

/-- A slot stays one when its read ends. -/
lemma slots_of_ended (s : Session) (line : Option String) :
    (s.pending.toList.map (fun read => (read, line)) ++ s.ends).reverse.map (·.1) = s.slots := by
  unfold slots
  cases s.pending with
  | none => simp
  | some read => simp

lemma Sound.completeLine (h : Sound s) : Sound s.completeLine := by
  obtain ⟨shown, after, heq⟩ := s.completeLine_eq
  rw [heq]
  refine ⟨.inl rfl, by simp, fun _ => ⟨rfl, rfl⟩, ?_⟩
  rw [Session.slots, Option.toList_none, List.append_nil]
  exact (s.slots_of_ended _).trans h.slots

/-- A read takes one more key. -/
lemma Sound.key (h : Sound s) (hreading : s.state = .reading) (c : Char) : Sound (s.key c) := by
  rcases s.key_cases c with ⟨typed, shown, after, heq⟩ | heq
  · rw [heq]
    exact ⟨.inr hreading, h.reading, fun hidle => absurd hidle (ne_idle hreading), h.slots⟩
  · rw [heq]
    exact h.completeLine

/-- A read begins, and a read that was pending has ended. -/
lemma Sound.prompted (h : Sound s) (prompt : Option String) : Sound (s.prompted prompt) := by
  obtain ⟨shown, after, heq⟩ := s.prompted_eq prompt
  rw [heq]
  refine ⟨.inr rfl, by simp, nofun, ?_⟩
  show _ ++ [s.nextRead] = List.range (s.nextRead + 1)
  rw [s.slots_of_ended none, h.slots, List.range_succ]

lemma Sound.replay (h : Sound s) (held : List Char) : Sound (s.replay held) := by
  -- the keys that wait are no part of `Sound`: here they go down one by one while the read is on
  induction held generalizing s with
  | nil => exact ⟨h.state, h.reading, h.idle, h.slots⟩
  | cons c rest ih =>
    unfold Session.replay
    by_cases hreading : s.state = .reading
    · rw [if_pos hreading]
      exact ih (h.key hreading c)
    · rw [if_neg hreading]
      exact ⟨h.state, h.reading, h.idle, h.slots⟩

/-- A read that goes on has taken all held keys. -/
lemma typeahead_replay (held : List Char) (hreading : (s.replay held).state = .reading) :
    (s.replay held).typeahead = [] := by
  induction held generalizing s with
  | nil => rfl
  | cons c rest ih =>
    unfold Session.replay at hreading ⊢
    by_cases hs : s.state = .reading
    · rw [if_pos hs] at hreading ⊢
      exact ih hreading
    · rw [if_neg hs] at hreading
      exact absurd hreading hs

/-! ## Between two operations -/

/-- What holds between two operations. -/
structure Settled (s : Session) : Prop extends Sound s where
  held : s.state = .reading → s.typeahead = []

lemma Settled.inputKey (h : Settled s) (c : Char) : Settled (s.inputKey c) := by
  unfold Session.inputKey
  by_cases hreading : s.state = .reading
  · rw [if_pos hreading]
    refine ⟨h.key hreading c, fun _ => ?_⟩
    rw [key_typeahead, h.held hreading]
  · rw [if_neg hreading]
    exact ⟨⟨h.state, h.reading, h.idle, h.slots⟩, fun hr => absurd hr hreading⟩

lemma Settled.input (h : Settled s) (data : String) : Settled (s.input data) :=
  List.foldlRecOn data.toList _ h fun _ hs c _ => hs.inputKey c

lemma Settled.write (h : Settled s) (data : String) : Settled (s.write data) := by
  unfold Session.write
  by_cases hreading : s.state = .reading
  · rw [if_pos hreading]
    exact ⟨⟨h.state, h.reading, fun hidle => absurd hidle (ne_idle hreading), h.slots⟩, h.held⟩
  · rw [if_neg hreading]
    obtain ⟨shown, after, hemit⟩ := s.emit_eq data.toList
    rw [hemit]
    exact ⟨⟨h.state, h.reading, h.idle, h.slots⟩, h.held⟩

lemma Settled.beginRead (h : Settled s) (prompt : Option String) :
    Settled (s.beginRead prompt).2 :=
  ⟨(h.toSound.prompted prompt).replay _, typeahead_replay (s.prompted prompt).typeahead⟩

/-- An operation leaves a session settled. -/
lemma Settled.apply (h : Settled s) (op : Op) : Settled (op.apply s) := by
  cases op with
  | input data => exact h.input data
  | feedLine data => exact (h.input data).input "\r"
  | beginRead prompt => exact h.beginRead prompt
  | write data => exact h.write data

lemma settled_new (id : String) (echo : Bool) : Settled (.new id echo) :=
  ⟨⟨.inl rfl, by simp [new], fun _ => ⟨rfl, rfl⟩, rfl⟩, nofun⟩

lemma Settled.performed (h : Settled s) (ops : List Op) : Settled (s.performed ops) :=
  List.foldlRecOn ops _ h fun _ hs op _ => hs.apply op

/-! ## How reads end -/

/-- From one session to the other reads have ended with a line only, and none has begun. -/
structure ReadsOn (s s' : Session) : Prop where
  count : s'.nextRead = s.nextRead
  ends : ∃ lines : List (ℕ × String), s'.ends = lines.map (fun e => (e.1, some e.2)) ++ s.ends

namespace ReadsOn

/-- A change of anything else. -/
lemma of_eq (hcount : s'.nextRead = s.nextRead) (hends : s'.ends = s.ends) : ReadsOn s s' :=
  ⟨hcount, [], hends⟩

lemma trans (h : ReadsOn s s') (h' : ReadsOn s' s'') : ReadsOn s s'' := by
  obtain ⟨lines, hends⟩ := h.ends
  obtain ⟨lines', hends'⟩ := h'.ends
  refine ⟨h'.count.trans h.count, lines' ++ lines, ?_⟩
  rw [hends', hends, List.map_append, List.append_assoc]

lemma key (s : Session) (c : Char) : ReadsOn s (s.key c) := by
  rcases s.key_cases c with ⟨typed, shown, after, heq⟩ | heq
  · rw [heq]
    exact .of_eq rfl rfl
  · obtain ⟨shown, after, hline⟩ := s.completeLine_eq
    rw [heq, hline]
    exact ⟨rfl, s.pending.toList.map fun read => (read, s.line), by simp⟩

lemma inputKey (s : Session) (c : Char) : ReadsOn s (s.inputKey c) := by
  unfold Session.inputKey
  split
  · exact .key s c
  · exact .of_eq rfl rfl

lemma input (s : Session) (data : String) : ReadsOn s (s.input data) :=
  List.foldlRecOn data.toList _ (.of_eq rfl rfl) fun _ hs c _ => hs.trans (.inputKey _ c)

lemma replay (s : Session) (held : List Char) : ReadsOn s (s.replay held) := by
  induction held generalizing s with
  | nil => exact .of_eq rfl rfl
  | cons c rest ih =>
    unfold Session.replay
    split
    · exact (ReadsOn.key s c).trans (ih _)
    · exact .of_eq rfl rfl

lemma write (s : Session) (data : String) : ReadsOn s (s.write data) := by
  unfold Session.write
  split
  · exact .of_eq rfl rfl
  · obtain ⟨shown, after, hemit⟩ := s.emit_eq data.toList
    rw [hemit]
    exact .of_eq rfl rfl

lemma mem_ends_iff (h : ReadsOn s s') : (read, none) ∈ s'.ends ↔ (read, none) ∈ s.ends := by
  obtain ⟨lines, hends⟩ := h.ends
  rw [hends]
  simp

end ReadsOn

/-- What an operation does to the reads: one that begins another read ends the pending one without
a line, and beyond that reads end with a line only. -/
lemma Op.readsOn_apply (op : Op) (s : Session) :
    ReadsOn
      { s with
        nextRead := s.nextRead + readCount [op]
        ends := (if op.isBeginRead then s.pending.toList.map fun read => (read, none) else []) ++
          s.ends }
      (op.apply s) := by
  cases op with
  | input data => exact ⟨(ReadsOn.input s data).count, (ReadsOn.input s data).ends⟩
  | feedLine data =>
    have hline := (ReadsOn.input s data).trans (.input _ "\r")
    exact ⟨hline.count, hline.ends⟩
  | beginRead prompt =>
    -- the pending read ends before the prompt shows, and the held keys end the new one at most
    obtain ⟨shown, after, heq⟩ := s.prompted_eq prompt
    have hreplay := ReadsOn.replay (s.prompted prompt) (s.prompted prompt).typeahead
    have hbegun : ReadsOn { s with
        nextRead := s.nextRead + 1
        ends := s.pending.toList.map (fun read => (read, none)) ++ s.ends } (s.prompted prompt) := by
      rw [heq]
      exact .of_eq rfl rfl
    exact hbegun.trans hreplay
  | write data => exact ⟨(ReadsOn.write s data).count, (ReadsOn.write s data).ends⟩

lemma nextRead_apply (op : Op) (s : Session) :
    (op.apply s).nextRead = s.nextRead + readCount [op] :=
  (op.readsOn_apply s).count

lemma mem_ends_apply (op : Op) (s : Session) : (read, none) ∈ (op.apply s).ends ↔
    op.isBeginRead = true ∧ s.pending = some read ∨ (read, none) ∈ s.ends := by
  rw [(op.readsOn_apply s).mem_ends_iff, List.mem_append]
  refine or_congr_left ?_
  split
  · next hop => simp [hop]
  · next hop => simp [hop]

/-- An end is not taken back. -/
lemma ends_suffix_apply (op : Op) (s : Session) : s.ends <:+ (op.apply s).ends := by
  obtain ⟨lines, hends⟩ := (op.readsOn_apply s).ends
  rw [hends, ← List.append_assoc]
  exact List.suffix_append _ _

lemma performed_append (s : Session) (ops : List Op) (op : Op) :
    s.performed (ops ++ [op]) = op.apply (s.performed ops) :=
  List.foldl_append

lemma ends_suffix_performed (s : Session) (ops : List Op) : s.ends <:+ (s.performed ops).ends := by
  induction ops using List.reverseRecOn with
  | nil => exact List.suffix_rfl
  | append_singleton ops op ih =>
    rw [performed_append]
    exact ih.trans (ends_suffix_apply op _)

lemma nextRead_performed (s : Session) (ops : List Op) :
    (s.performed ops).nextRead = s.nextRead + readCount ops := by
  induction ops using List.reverseRecOn with
  | nil => rfl
  | append_singleton ops op ih =>
    rw [performed_append, nextRead_apply, ih, readCount, readCount, readCount, List.countP_append,
      Nat.add_assoc]

/-- Another read began while this one was pending. -/
def Replaced (s : Session) (ops : List Op) (read : ℕ) : Prop :=
  ∃ before prompt after, ops = before ++ .beginRead prompt :: after ∧
    (s.performed before).pending = some read

lemma replaced_append_iff {ops : List Op} {op : Op} : s.Replaced (ops ++ [op]) read ↔
    op.isBeginRead = true ∧ (s.performed ops).pending = some read ∨ s.Replaced ops read := by
  constructor
  · rintro ⟨before, prompt, after, hops, hpending⟩
    -- the read began in one of the earlier operations, or it is the last one
    rcases append_eq_append_cons hops with ⟨rest, rfl, -⟩ | ⟨skipped, rfl, hop⟩
    · exact .inr ⟨before, prompt, rest, rfl, hpending⟩
    · obtain ⟨rfl, hop⟩ | ⟨-, hnil⟩ := List.append_eq_singleton_iff.1 hop.symm
      · cases hop
        rw [List.append_nil] at hpending
        exact .inl ⟨rfl, hpending⟩
      · cases hnil
  · rintro (⟨hop, hpending⟩ | ⟨before, prompt, after, rfl, hpending⟩)
    · cases op with
      | beginRead prompt => exact ⟨ops, prompt, [], rfl, hpending⟩
      | _ => cases hop
    · exact ⟨before, prompt, after ++ [op], List.append_assoc _ _ _, hpending⟩

/-- A read ends without a line exactly when another one begins while it is pending. -/
lemma mem_ends_performed_iff (hs : s.ends = []) (ops : List Op) :
    (read, none) ∈ (s.performed ops).ends ↔ s.Replaced ops read := by
  -- from the last operation back, as what was pending before it says whether it replaces a read
  induction ops using List.reverseRecOn with
  | nil => simp [performed, hs, Replaced]
  | append_singleton ops op ih => rw [performed_append, mem_ends_apply, ih, replaced_append_iff]

end

/-! ## All reads -/

section
variable {s : Session} {read : ℕ} {line : Option String}

lemma find?_map_snd_eq_some_iff {ends : List (ℕ × Option String)} (hends : (ends.map (·.1)).Nodup) :
    (ends.find? (·.1 == read)).map (·.2) = some line ↔ (read, line) ∈ ends := by
  induction ends with
  | nil => simp
  | cons e rest ih =>
    obtain ⟨first, ending⟩ := e
    obtain ⟨hnew, hrest⟩ := List.nodup_cons.1 hends
    by_cases hfirst : first = read
    · subst hfirst
      have hlater : (first, line) ∉ rest :=
        fun hmem => hnew (List.mem_map.2 ⟨(first, line), hmem, rfl⟩)
      rw [List.find?_cons_of_pos (by simp), List.mem_cons, or_iff_left hlater]
      simp [eq_comm]
    · rw [List.find?_cons_of_neg (by simpa using hfirst), ih hrest, List.mem_cons, or_iff_right]
      intro heq
      cases heq
      exact hfirst rfl

namespace Sound

lemma nodup_slots (h : Sound s) : s.slots.Nodup := by
  rw [h.slots]
  exact List.nodup_range

/-- A read that has begun is pending or has ended. -/
lemma pending_or_ended (h : Sound s) (hread : read < s.nextRead) :
    s.pending = some read ∨ ∃ line, (read, line) ∈ s.ends := by
  have hmem : read ∈ s.slots := by
    rw [h.slots]
    exact List.mem_range.2 hread
  rcases List.mem_append.1 hmem with hended | hpending
  · obtain ⟨⟨_, line⟩, he, rfl⟩ := List.mem_map.1 hended
    exact .inr ⟨line, List.mem_reverse.1 he⟩
  · exact .inl (Option.mem_toList.1 hpending)

/-- A read that has ended is not pending. -/
lemma pending_ne (h : Sound s) (hend : (read, line) ∈ s.ends) : s.pending ≠ some read := by
  intro hpending
  have hended : read ∈ s.ends.reverse.map (·.1) :=
    List.mem_map_of_mem (f := (·.1)) (List.mem_reverse.2 hend)
  exact List.disjoint_of_nodup_append h.nodup_slots hended (Option.mem_toList.2 hpending)

/-- A read ends once, and so its end is the one that is noted. -/
lemma endOf?_eq_some_iff (h : Sound s) : s.endOf? read = some line ↔ (read, line) ∈ s.ends := by
  have hends := (List.nodup_append.1 h.nodup_slots).1
  rw [List.map_reverse, List.nodup_reverse] at hends
  exact find?_map_snd_eq_some_iff hends

end Sound

/-- What has become of a read that has begun. -/
inductive Fate (start : Session) (ops : List Op) (s : Session) (read : ℕ) : Prop
  /-- it waits for its line -/
  | pending (hpending : s.pending = some read) (hend : s.endOf? read = none)
      (hkept : ¬ start.Replaced ops read)
  /-- it has been replaced, and has ended without a line -/
  | dropped (hpending : s.pending ≠ some read) (hend : s.endOf? read = some none)
      (hreplaced : start.Replaced ops read)
  /-- it has ended with a line -/
  | resolved (line : String) (hpending : s.pending ≠ some read)
      (hend : s.endOf? read = some (some line)) (hkept : ¬ start.Replaced ops read)

lemma Sound.fate {start : Session} {ops : List Op} (h : Sound s)
    (hends : (read, none) ∈ s.ends ↔ start.Replaced ops read) (hread : read < s.nextRead) :
    Fate start ops s read := by
  rw [← h.endOf?_eq_some_iff] at hends
  rcases h.pending_or_ended hread with hpending | ⟨line, hmem⟩
  · have hend : s.endOf? read = none := by
      rw [Option.eq_none_iff_forall_ne_some]
      intro line hline
      exact h.pending_ne (h.endOf?_eq_some_iff.1 hline) hpending
    refine .pending hpending hend fun hreplaced => ?_
    rw [hends.2 hreplaced] at hend
    cases hend
  · have hend := h.endOf?_eq_some_iff.2 hmem
    cases line with
    | none => exact .dropped (h.pending_ne hmem) hend (hends.1 hend)
    | some line =>
      refine .resolved line (h.pending_ne hmem) hend fun hreplaced => ?_
      rw [hends.2 hreplaced] at hend
      cases hend

/-- What can be said of a session after some operations, and of all its reads. -/
structure Accounted (start : Session) (ops : List Op) (s : Session) : Prop extends Settled s where
  /-- every read has a slot -/
  count : s.nextRead = readCount ops
  /-- a read ends without a line exactly when another one begins while it is pending -/
  replaced : ∀ read, (read, none) ∈ s.ends ↔ start.Replaced ops read
  /-- each read is pending, has been dropped, or has been resolved with a line -/
  fate : ∀ read < readCount ops, Fate start ops s read
  /-- how a read has ended stays so, whatever comes after -/
  final : ∀ more, s.ends <:+ (s.performed more).ends

/-- Whatever operations come in whatever order, a session ends up waiting for keys or for the next
read, with nothing left over from the last one, and every read is accounted for. -/
theorem slots_accounted (id : String) (echo : Bool) (ops : List Op) :
    Accounted (.new id echo) ops ((Session.new id echo).performed ops) := by
  have hsettled := (settled_new id echo).performed ops
  have hcount : ((Session.new id echo).performed ops).nextRead = readCount ops :=
    (nextRead_performed _ ops).trans (Nat.zero_add _)
  have hreplaced (read : ℕ) : (read, none) ∈ ((Session.new id echo).performed ops).ends ↔
      (Session.new id echo).Replaced ops read := mem_ends_performed_iff rfl ops
  refine ⟨hsettled, hcount, hreplaced, fun read hread => ?_, ends_suffix_performed _⟩
  exact hsettled.fate (hreplaced read) (hcount ▸ hread)

/-- A read takes a line that was held, the next one is replaced, the one in its place gets a line,
and the last one waits. -/
example : ((Session.new "tty" true).performed
    [.input "x\ra", .beginRead none, .beginRead none, .beginRead none, .input "b\r",
      .beginRead none]).ends =
    [(2, some "b"), (1, none), (0, some "x")] :=
  rfl

end

end Session
end WorkerHost
