import WorkerHost.Proofs.Text.Lossy

/-!
# Bytes of whole characters

What the bytes of a text begin with are whole characters and the beginning of one more,
`exists_eq_append_begun`. Between whole characters such bytes can be cut, `Whole.of_append`.
-/

namespace WorkerHost
namespace Text.Utf8
variable {bytes more : List UInt8} {b : UInt8} {cs : List Char}

/-- The bytes are those of whole characters. -/
def Whole (bytes : List UInt8) : Prop :=
  ∃ cs, bytes = encode cs

lemma next_encode_cons (c : Char) (cs : List Char) :
    next (encode (c :: cs)) = .char c (encode cs) :=
  (encodes c).next_append (encode cs)

lemma ofString_append (s t : String) : ofString (s ++ t) = ofString s ++ ofString t := by
  rw [ofString_eq_encode, String.toList_append, encode_append, ← ofString_eq_encode,
    ← ofString_eq_encode]

lemma ofString_ofList (cs : List Char) : ofString (String.ofList cs) = encode cs := by
  rw [ofString_eq_encode, String.toList_ofList]

lemma ofString_injective : Function.Injective ofString := by
  intro s t h
  rw [← Option.some_inj, ← toString?_ofString, h, toString?_ofString]

lemma encode_singleton (c : Char) : encode [c] = String.utf8EncodeChar c :=
  List.append_nil _

/-- Behind whole characters there are whole ones. -/
lemma Whole.of_append (h : Whole (encode cs ++ bytes)) : Whole bytes := by
  obtain ⟨ds, hds⟩ := h
  induction cs generalizing ds with
  | nil => exact ⟨ds, hds⟩
  | cons c cs ih =>
    have hnext : next (encode ds) = .char c (encode cs ++ bytes) := by
      rw [← hds]
      exact next_append_of_char (next_encode_cons c cs) bytes
    cases ds with
    | nil => cases hnext
    | cons d ds =>
      rw [next_encode_cons] at hnext
      exact ih ds (Front.char.inj hnext).2.symm

/-- Nothing has begun where a character is over. -/
lemma Begun.eq_nil (h : Begun bytes) (hwhole : Whole bytes) : bytes = [] := by
  obtain ⟨cs, rfl⟩ := hwhole
  cases cs with
  | nil => rfl
  | cons c cs =>
    rw [Begun, next_encode_cons] at h
    simp at h

/-- In the bytes of a text what is more than a beginning is a character. -/
lemma exists_eq_encode_append (h : Whole (bytes ++ more)) (hend : ¬ Begun bytes) :
    ∃ c rest, next bytes = .char c rest ∧ bytes = encode [c] ++ rest ∧ Whole (rest ++ more) := by
  obtain ⟨cs, hcs⟩ := h
  cases cs with
  | nil =>
    obtain ⟨rfl, -⟩ := List.append_eq_nil_iff.1 hcs
    exact absurd begun_nil hend
  | cons d ds =>
    cases hnext : next bytes with
    | char c rest =>
      have h := next_append_of_char hnext more
      rw [hcs, next_encode_cons] at h
      obtain ⟨rfl, hrest⟩ := Front.char.inj h
      have hbytes : bytes ++ more = (encode [d] ++ rest) ++ more := by
        rw [hcs, List.append_assoc, ← hrest, ← encode_append]
        rfl
      exact ⟨d, rest, rfl, List.append_cancel_right hbytes, ds, hrest.symm⟩
    | malformed rest =>
      have h := next_append_of_malformed hnext more
      rw [hcs, next_encode_cons] at h
      cases h
    | incomplete => exact absurd (.inl hnext) hend
    | nothing => exact absurd (.inr hnext) hend

/-- What the bytes of a text begin with are characters and the beginning of one. -/
lemma exists_eq_append_begun {bytes : List UInt8} (h : Whole (bytes ++ more)) :
    ∃ cs cut, bytes = encode cs ++ cut ∧ Begun cut := by
  by_cases hbegun : Begun bytes
  · exact ⟨[], bytes, rfl, hbegun⟩
  · obtain ⟨c, rest, -, hbytes, hrest⟩ := exists_eq_encode_append h hbegun
    obtain ⟨cs, cut, hcs, hcut⟩ := exists_eq_append_begun hrest
    exact ⟨c :: cs, cut, by rw [hbytes, hcs, ← List.append_assoc, ← encode_append]; rfl, hcut⟩
termination_by bytes.length
decreasing_by
  have hc := length_encodeChar_pos c
  rw [hbytes, List.length_append, encode_singleton]
  omega

/-- A byte that is more than a beginning finishes a character there. -/
lemma Begun.concat_eq (h : Begun bytes) (hwhole : Whole (bytes ++ [b] ++ more))
    (hend : ¬ Begun (bytes ++ [b])) : ∃ c, bytes ++ [b] = encode [c] := by
  obtain ⟨c, rest, hnext, hbytes, -⟩ := exists_eq_encode_append hwhole hend
  obtain rfl : rest = [] := by
    rcases h.concat b hend with ⟨d, h⟩ | h | h <;> rw [hnext] at h <;> cases h
    rfl
  exact ⟨c, by rw [hbytes, List.append_nil]⟩

lemma decodeLossy_encode (cs : List Char) : decodeLossy (encode cs) = cs := by
  induction cs with
  | nil => rfl
  | cons c cs ih =>
    rw [decodeLossy_eq, next_encode_cons, Front.after, ih]
    rfl

end Text.Utf8

open Text Utf8

namespace Reading

lemma loop_encode_append {cut : List UInt8} (hcut : next cut = .incomplete) {cs : List Char}
    {fuel : ℕ} (h : (encode cs ++ cut).length < fuel) (acc : List Char) :
    loop fuel (encode cs ++ cut) acc = .unfinished (String.ofList (acc.reverse ++ cs)) cut := by
  induction cs generalizing fuel acc with
  | nil =>
    cases fuel with
    | zero => simp at h
    | succ fuel =>
      have hnil : encode [] = [] := rfl
      rw [hnil, List.nil_append, loop, hcut, List.append_nil]
  | cons c cs ih =>
    cases fuel with
    | zero => simp at h
    | succ fuel =>
      have hc := length_encodeChar_pos c
      have hcons : encode (c :: cs) ++ cut = encode [c] ++ (encode cs ++ cut) := by
        rw [← List.append_assoc, ← encode_append]
        rfl
      have hlength : (encode (c :: cs) ++ cut).length =
          (String.utf8EncodeChar c).length + (encode cs ++ cut).length := by
        rw [hcons, List.length_append, encode_singleton]
      rw [loop, next_append_of_char (next_encode_cons c cs)]
      simp only
      rw [ih (by omega), List.reverse_cons, List.append_assoc, List.singleton_append]

end Reading

/-- A sink over a channel sends the whole characters that it holds, and keeps the beginning of the
next one. -/
lemma ChannelSink.takeText_encode_append {cut : List UInt8} (hcut : Begun cut) (cs : List Char) :
    takeText ⟨encode cs ++ cut⟩ = (String.ofList cs, ⟨cut⟩) := by
  rcases hcut with hcut | hcut
  · have hread : Reading.of (encode cs ++ cut) = .unfinished (String.ofList cs) cut :=
      Reading.loop_encode_append hcut (Nat.lt_succ_self _) []
    rw [takeText, hread]
  · obtain rfl := next_eq_nothing.1 hcut
    rw [List.append_nil, takeText_encode]
    rfl

end WorkerHost
