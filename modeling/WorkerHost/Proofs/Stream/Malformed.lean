import Mathlib.Data.List.Induction
import WorkerHost.Proofs.Text.Lossy

/-!
# Displays and malformed bytes

A sink for a display puts bytes out piece by piece: a piece ends with the byte that makes it more
than the beginning of a character, and each is read on its own, `SurfaceSink.shown_append_cons`.
Bytes that belong together can be torn apart so, where one cuts a character off and begins the next
one. Nothing else keeps a display from showing the text of all the bytes,
`SurfaceSink.shown_eq_lossyText_iff`.
-/

namespace WorkerHost

open Text Utf8

namespace Reading
variable {bytes : List UInt8}

lemma of_incomplete (h : next bytes = .incomplete) : of bytes = .unfinished "" bytes := by
  rw [of, loop, h]
  rfl

lemma of_char {c : Char} (h : next bytes = .char c []) : of bytes = .whole (String.ofList [c]) := by
  rw [of, loop, h]
  cases bytes <;> rfl

lemma of_malformed {rest : List UInt8} (h : next bytes = .malformed rest) :
    of bytes = .malformed := by
  rw [of, loop, h]

end Reading

namespace SurfaceSink
variable {bytes rest : List UInt8} {b : UInt8}

/-- What a display shows of bytes that come one by one, with a flush at their end. -/
def shown (bytes : List UInt8) : String :=
  String.join ((writeBytes new bytes).1 ++ (writeBytes new bytes).2.flush.1)

lemma writeByte_of_begun (h : Begun (bytes ++ [b])) :
    writeByte ⟨bytes⟩ b = ([], ⟨bytes ++ [b]⟩) := by
  rcases h with h | h
  · rw [writeByte, Reading.of_incomplete h]
  · simpa using next_eq_nothing.1 h

lemma flush_of_ne_nil (h : bytes ≠ []) : flush ⟨bytes⟩ = ([lossyText bytes], new) :=
  if_neg (by simpa using h)

/-- A whole piece is put out. -/
lemma writeByte_of_not_begun (h : Begun bytes) (hend : ¬ Begun (bytes ++ [b])) :
    writeByte ⟨bytes⟩ b = ([lossyText (bytes ++ [b])], new) := by
  have hmalformed {rest : List UInt8} (hnext : next (bytes ++ [b]) = .malformed rest) :
      writeByte ⟨bytes⟩ b = ([lossyText (bytes ++ [b])], new) := by
    rw [writeByte, Reading.of_malformed hnext]
    exact flush_of_ne_nil (by simp)
  rcases h.concat b hend with ⟨c, hnext⟩ | hnext | hnext
  · rw [writeByte, Reading.of_char hnext, lossyText, decodeLossy_eq, hnext]
    rfl
  · exact hmalformed hnext
  · exact hmalformed hnext

lemma writeBytes_append (s : SurfaceSink) (bytes rest : List UInt8) :
    writeBytes s (bytes ++ rest) =
      ((writeBytes s bytes).1 ++ (writeBytes (writeBytes s bytes).2 rest).1,
        (writeBytes (writeBytes s bytes).2 rest).2) := by
  induction bytes generalizing s with
  | nil => rfl
  | cons b bytes ih => simp [writeBytes, ih]

/-- Nothing is put out before a piece ends. -/
lemma writeBytes_of_begun (h : Begun bytes) : writeBytes new bytes = ([], ⟨bytes⟩) := by
  induction bytes using List.reverseRecOn with
  | nil => rfl
  | append_singleton bytes b ih =>
    rw [writeBytes_append, ih h.of_append]
    simp [writeBytes, writeByte_of_begun h]

lemma writeBytes_append_cons (h : Begun bytes) (hend : ¬ Begun (bytes ++ [b])) :
    writeBytes new (bytes ++ b :: rest) =
      (lossyText (bytes ++ [b]) :: (writeBytes new rest).1, (writeBytes new rest).2) := by
  rw [writeBytes_append, writeBytes_of_begun h]
  simp [writeBytes, writeByte_of_not_begun h hend]

lemma shown_append_cons (h : Begun bytes) (hend : ¬ Begun (bytes ++ [b])) :
    shown (bytes ++ b :: rest) = lossyText (bytes ++ [b]) ++ shown rest := by
  rw [shown, writeBytes_append_cons h hend]
  exact String.join_cons

lemma shown_of_begun (h : Begun bytes) : shown bytes = lossyText bytes := by
  rw [shown, writeBytes_of_begun h]
  cases bytes with
  | nil => rfl
  | cons b bytes =>
    rw [flush_of_ne_nil (List.cons_ne_nil _ _)]
    exact String.join_cons.trans (String.append_empty)

lemma length_shown_append_cons (h : Begun bytes) (hend : ¬ Begun (bytes ++ [b])) :
    (shown (bytes ++ b :: rest)).length =
      (decodeLossy (bytes ++ [b])).length + (shown rest).length := by
  rw [shown_append_cons h hend, String.length_append, lossyText, String.length_ofList]

/-- Where no piece is torn off the pieces show what all the bytes do. -/
lemma shown_eq_or_torn (bytes : List UInt8) : shown bytes = lossyText bytes ∨ Torn bytes := by
  induction pieces bytes with
  | last h => exact .inl (shown_of_begun h)
  | @piece bytes rest b h hend hrest ih =>
    by_cases htears : Tears bytes b rest
    · exact .inr (.here h hend htears)
    · refine ih.imp (fun heq => ?_) (.later h hend)
      rw [shown_append_cons h hend, heq, lossyText, lossyText, lossyText,
        decodeLossy_append_cons h hend htears, String.ofList_append]

/-- They never show less. -/
lemma length_decodeLossy_le (bytes : List UInt8) :
    (decodeLossy bytes).length ≤ (shown bytes).length := by
  induction pieces bytes with
  | last h => rw [shown_of_begun h, lossyText, String.length_ofList]
  | @piece bytes rest b h hend hrest ih =>
    rw [length_shown_append_cons h hend]
    exact (length_decodeLossy_append_cons_le h hend rest).trans (Nat.add_le_add_left ih _)

/-- What is torn shows as more. -/
lemma length_decodeLossy_lt (h : Torn bytes) :
    (decodeLossy bytes).length < (shown bytes).length := by
  induction h with
  | @here bytes rest b h hend htears =>
    rw [length_shown_append_cons h hend]
    exact (length_decodeLossy_append_cons_lt htears).trans_le
      (Nat.add_le_add_left (length_decodeLossy_le rest) _)
  | @later bytes rest b h hend hrest ih =>
    rw [length_shown_append_cons h hend]
    exact (length_decodeLossy_append_cons_le h hend rest).trans_lt (Nat.add_lt_add_left ih _)

lemma join_map_singleton (cs : List Char) :
    String.join (cs.map fun c => String.ofList [c]) = String.ofList cs := by
  induction cs with
  | nil => rfl
  | cons c cs ih =>
    rw [List.map_cons, String.join_cons, ih, ← String.ofList_append]
    rfl

/-- A display shows the text of all the bytes if and only if no piece is torn off; otherwise it
shows more characters. Of whole characters that come when nothing is pending it shows all. -/
theorem shown_eq_lossyText_iff (bytes : List UInt8) :
    (shown bytes = lossyText bytes ↔ ¬ Torn bytes) ∧
    (lossyText bytes).length ≤ (shown bytes).length ∧
    ((writeBytes new bytes).2 = new → ∀ cs,
      shown (bytes ++ encode cs) = shown bytes ++ String.ofList cs) := by
  have hlength : (lossyText bytes).length = (decodeLossy bytes).length := String.length_ofList
  refine ⟨⟨fun heq htorn => ?_, (shown_eq_or_torn bytes).resolve_right⟩, ?_, fun hnew cs => ?_⟩
  · have hlt := length_decodeLossy_lt htorn
    rw [heq, hlength] at hlt
    exact Nat.lt_irrefl _ hlt
  · rw [hlength]
    exact length_decodeLossy_le bytes
  · have hflush : flush new = ([], new) := rfl
    rw [shown, shown, writeBytes_append, hnew, writeBytes_encode, hflush, List.append_nil,
      List.append_nil, String.join_append, join_map_singleton]

/-- A character after a stray byte. -/
theorem shown_after_stray : ¬ Torn [0xFF] ∧ shown ([0xFF] ++ encode ['é']) = "\uFFFDé" := by
  have hshown : shown [0xFF] = "\uFFFD" := by decide
  obtain ⟨hiff, -, happend⟩ := shown_eq_lossyText_iff [0xFF]
  exact ⟨hiff.1 (by decide), (happend rfl ['é']).trans (by rw [hshown]; decide)⟩

/-- The beginning of a character that is cut off by another one takes its first byte along. -/
theorem shown_after_beginning : shown [0xE2, 0xC3, 0xA9] ≠ lossyText [0xE2, 0xC3, 0xA9] ∧
    shown [0xE2, 0xC3, 0xA9] = "\uFFFD\uFFFD\uFFFD" ∧ lossyText [0xE2, 0xC3, 0xA9] = "\uFFFDé" := by
  decide

end SurfaceSink
end WorkerHost
