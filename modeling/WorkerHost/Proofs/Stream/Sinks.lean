import WorkerHost.Proofs.Outcome
import WorkerHost.Proofs.Text.Utf8
import WorkerHost.Stream.Sink

/-!
# Sinks between characters

Texts arrive at sinks as the bytes of whole characters. A sink for a display has put out everything
whenever a character is whole: `SurfaceSink.writeBytes_encode`. A sink over a channel sends all that
it holds when it sends at all: `ChannelSink.takeText_encode`.
-/

namespace WorkerHost

open Text Utf8

namespace Text.Utf8

lemma encode_append (cs ds : List Char) : encode (cs ++ ds) = encode cs ++ encode ds :=
  List.flatMap_append

lemma length_encodeChar_pos (c : Char) : 0 < (String.utf8EncodeChar c).length := by
  rw [String.length_utf8EncodeChar]
  exact c.utf8Size_pos

/-- A newline in the bytes of a text is a newline of the text. -/
lemma encode_split {cs : List Char} {before after : List UInt8}
    (h : encode cs = before ++ 10 :: after) :
    ∃ ds es, cs = ds ++ es ∧ before ++ [10] = encode ds ∧ after = encode es := by
  induction cs generalizing before with
  | nil => simp [encode] at h
  | cons c cs ih =>
    rcases append_eq_append_cons h with ⟨rest, hc, rfl⟩ | ⟨skipped, rfl, hcs⟩
    · -- the newline is in the bytes of the first character, which is just it
      have hnewline := (encodes c).eq_newline (by simp [hc])
      rw [hnewline] at hc
      obtain ⟨rfl, hrest⟩ : before = [] ∧ rest = [] := by
        cases before <;> simp_all
      exact ⟨[c], cs, rfl, by simp [encode, hnewline], by rw [hrest]; rfl⟩
    · obtain ⟨ds, es, rfl, hds, hes⟩ := ih hcs
      exact ⟨c :: ds, es, rfl, by rw [List.append_assoc, hds]; rfl, hes⟩

end Text.Utf8

namespace Reading

lemma loop_encode {cs : List Char} {fuel : ℕ} (h : (encode cs).length < fuel) (acc : List Char) :
    loop fuel (encode cs) acc = .whole (String.ofList (acc.reverse ++ cs)) := by
  induction cs generalizing fuel acc with
  | nil =>
    cases fuel with
    | zero => simp at h
    | succ fuel => simp [loop, encode, next]
  | cons c cs ih =>
    cases fuel with
    | zero => simp at h
    | succ fuel =>
      have hc := length_encodeChar_pos c
      have hlength : (encode (c :: cs)).length =
          (String.utf8EncodeChar c).length + (encode cs).length :=
        List.length_append
      have hnext : next (encode (c :: cs)) = .char c (encode cs) :=
        (encodes c).next_append (encode cs)
      rw [loop, hnext]
      simp only
      rw [ih (by omega), List.reverse_cons, List.append_assoc, List.singleton_append]

/-- The bytes of a text are read as this text. -/
lemma of_encode (cs : List Char) : of (encode cs) = .whole (String.ofList cs) :=
  loop_encode (Nat.lt_succ_self _) []

/-- The bytes at the beginning of a character are read as unfinished. -/
lemma of_take {c : Char} {k : ℕ} (hk : 0 < k) (hk' : k < (String.utf8EncodeChar c).length) :
    of ((String.utf8EncodeChar c).take k) =
      .unfinished "" ((String.utf8EncodeChar c).take k) := by
  rw [of, loop, (encodes c).next_take hk hk']
  rfl

end Reading

namespace ChannelSink

/-- A sink that holds the bytes of a text sends all of them. -/
lemma takeText_encode (cs : List Char) : takeText ⟨encode cs⟩ = (String.ofList cs, new) := by
  rw [takeText, Reading.of_encode]

end ChannelSink

namespace SurfaceSink

/-- The bytes of a character that has begun to arrive. -/
lemma writeBytes_drop (c : Char) (rest : List UInt8) {k : ℕ}
    (hk : k < (String.utf8EncodeChar c).length) :
    writeBytes ⟨(String.utf8EncodeChar c).take k⟩ ((String.utf8EncodeChar c).drop k ++ rest) =
      (String.ofList [c] :: (writeBytes new rest).1, (writeBytes new rest).2) := by
  have hstep : (String.utf8EncodeChar c).take k ++ [(String.utf8EncodeChar c)[k]] =
    (String.utf8EncodeChar c).take (k + 1) := List.take_append_getElem hk
  rw [List.drop_eq_getElem_cons hk, List.cons_append, writeBytes, writeByte, hstep]
  by_cases hlast : k + 1 < (String.utf8EncodeChar c).length
  · rw [Reading.of_take (Nat.succ_pos k) hlast]
    simp only [writeBytes_drop c rest hlast, List.nil_append]
  · have hall : (String.utf8EncodeChar c).length ≤ k + 1 := Nat.le_of_not_lt hlast
    have hchar : String.utf8EncodeChar c = encode [c] := (List.append_nil _).symm
    rw [List.take_of_length_le hall, List.drop_of_length_le hall, hchar, Reading.of_encode]
    rfl
termination_by (String.utf8EncodeChar c).length - k
decreasing_by exact Nat.sub_lt_sub_left hk (Nat.lt_succ_self k)

/-- Whatever the text, all of it is put out, character by character. -/
lemma writeBytes_encode (cs : List Char) :
    writeBytes new (encode cs) = (cs.map fun c => String.ofList [c], new) := by
  induction cs with
  | nil => rfl
  | cons c cs ih =>
    have h := writeBytes_drop c (encode cs) (length_encodeChar_pos c)
    rw [ih] at h
    exact h

end SurfaceSink
end WorkerHost
