import Mathlib.Tactic.IntervalCases
import WorkerHost.Proofs.Json.Reader
import WorkerHost.Proofs.Text.Utf8

/-!
# Strings

A string is read back whatever follows it: every byte is written in one of three forms, by itself,
as a short escape or by its number, and each form is one step of the reader, which ends at the
closing quote.
-/

namespace WorkerHost

namespace Json.Reader
variable {rest acc : List UInt8}

/-! ## Escapes by number -/

/-- A hexadecimal digit is one byte, and that byte has the value of the digit. -/
lemma exists_hexDigit {k : ℕ} (hk : k < 16) :
    ∃ b, String.utf8EncodeChar (Text.hexDigit k) = [b] ∧ hexDigit? b = some k := by
  interval_cases k <;> exact ⟨_, rfl, rfl⟩

/-- Four digits give their number. -/
lemma hexEscape_hexDigits {n : ℕ} (hn : n < 2 ^ 16) :
    hexEscape (Text.Utf8.encode (Text.hexDigits 4 n) ++ rest) = .ok (n, rest) := by
  have hdigits : Text.hexDigits 4 n = [Text.hexDigit (n / 16 ^ 3 % 16),
      Text.hexDigit (n / 16 ^ 2 % 16), Text.hexDigit (n / 16 ^ 1 % 16),
      Text.hexDigit (n / 16 ^ 0 % 16)] := rfl
  obtain ⟨a, ha, hav⟩ := exists_hexDigit (Nat.mod_lt (n / 16 ^ 3) (by decide : 0 < 16))
  obtain ⟨b, hb, hbv⟩ := exists_hexDigit (Nat.mod_lt (n / 16 ^ 2) (by decide : 0 < 16))
  obtain ⟨c, hc, hcv⟩ := exists_hexDigit (Nat.mod_lt (n / 16 ^ 1) (by decide : 0 < 16))
  obtain ⟨d, hd, hdv⟩ := exists_hexDigit (Nat.mod_lt (n / 16 ^ 0) (by decide : 0 < 16))
  have hvalue : ((n / 16 ^ 3 % 16 * 16 + n / 16 ^ 2 % 16) * 16 + n / 16 ^ 1 % 16) * 16 +
      n / 16 ^ 0 % 16 = n := by
    omega
  rw [hdigits, Text.Utf8.encode]
  simp only [List.flatMap_cons, List.flatMap_nil, ha, hb, hc, hd, List.cons_append, List.nil_append]
  unfold hexEscape
  simp only [hav, hbv, hcv, hdv, hvalue]

/-- A control is the only byte of its character. -/
lemma bytesOf_control {b : UInt8} (hb : b < 32) : bytesOf b.toNat = [b] := by
  have hlt : b.toNat < 32 := hb
  have hlow : ∀ n < 32, bytesOf n = [UInt8.ofNat n] := by decide
  rw [hlow _ hlt, UInt8.ofNat_toNat]

lemma escape_control {b : UInt8} (hb : b < 32) :
    escape (117 :: Text.Utf8.encode (Text.hexDigits 4 b.toNat) ++ rest) = .ok ([b], rest) := by
  have hlt : b.toNat < 32 := hb
  have hhex : hexEscape (Text.Utf8.encode (Text.hexDigits 4 b.toNat) ++ rest) =
      .ok (b.toNat, rest) := hexEscape_hexDigits (by omega)
  -- a control is no half of a surrogate pair
  have hlow : ¬ 0xDC00 ≤ b.toNat := by omega
  have hplane : b.toNat < 0xD800 := by omega
  show unicodeEscape (Text.Utf8.encode (Text.hexDigits 4 b.toNat) ++ rest) = _
  unfold unicodeEscape
  rw [bind_run hhex]
  simp only [hlow, hplane, decide_false, decide_true, Bool.false_and, Bool.true_or,
    Bool.false_eq_true, if_false, if_true, bytesOf_control hb]
  rfl

/-! ## The loop -/

/-- The written form of a byte is one step of the loop. -/
lemma stringLoop_escapeByte (b : UInt8) (fuel : ℕ) :
    stringLoop escape (fuel + 1) acc (escapeByte b ++ rest) =
      stringLoop escape fuel (b :: acc) rest := by
  unfold escapeByte
  split
  · next h => rw [eq_of_beq h]; rfl
  · next hquote =>
    split
    · next h => rw [eq_of_beq h]; rfl
    · next hslash =>
      split
      · next h => rw [eq_of_beq h]; rfl
      split
      · next h => rw [eq_of_beq h]; rfl
      split
      · next h => rw [eq_of_beq h]; rfl
      split
      · next h => rw [eq_of_beq h]; rfl
      split
      · next h => rw [eq_of_beq h]; rfl
      split
      -- a control without a short escape, then a byte that stands for itself
      · next hlow =>
        show (escape >>= fun bs => stringLoop escape fuel (bs.reverse ++ acc))
          (117 :: Text.Utf8.encode (Text.hexDigits 4 b.toNat) ++ rest) = _
        rw [bind_run (escape_control hlow)]
        rfl
      · next hlow =>
        show (if b == byte '"' then pure acc
          else if b == byte '\\' then
            escape >>= fun bs => stringLoop escape fuel (bs.reverse ++ acc)
          else if b < 32 then failHere .controlCharacter
          else stringLoop escape fuel (b :: acc)) rest = _
        rw [if_neg (show ¬ (b == byte '"') = true from hquote),
          if_neg (show ¬ (b == byte '\\') = true from hslash), if_neg hlow]

lemma stringLoop_flatMap (bs : List UInt8) {fuel : ℕ} (hfuel : bs.length < fuel) :
    stringLoop escape fuel acc (bs.flatMap escapeByte ++ 34 :: rest) =
      .ok (bs.reverse ++ acc, rest) := by
  obtain ⟨fuel, rfl⟩ := Nat.exists_eq_succ_of_ne_zero (Nat.ne_zero_of_lt hfuel)
  induction bs generalizing fuel acc with
  | nil => rfl
  | cons b bs ih =>
    have hlt : bs.length < fuel := Nat.lt_of_succ_lt_succ hfuel
    obtain ⟨fuel, rfl⟩ := Nat.exists_eq_succ_of_ne_zero (Nat.ne_zero_of_lt hlt)
    rw [List.flatMap_cons, List.append_assoc, stringLoop_escapeByte, ih fuel hlt]
    simp

/-- No byte is written as nothing. -/
lemma length_le_flatMap (bs : List UInt8) : bs.length ≤ (bs.flatMap escapeByte).length := by
  have hpos : ∀ b, 1 ≤ (escapeByte b).length := by
    intro b
    unfold escapeByte
    split_ifs <;> simp
  induction bs with
  | nil => simp
  | cons b bs ih =>
    have := hpos b
    rw [List.flatMap_cons, List.length_append, List.length_cons]
    omega

/-- What stands after the opening quote of a string is read back. -/
lemma string_quote (s : String) (rest : List UInt8) :
    string ((quote s).tail ++ rest) = .ok (s, rest) := by
  have htail : (quote s).tail ++ rest =
      (Text.Utf8.ofString s).flatMap escapeByte ++ 34 :: rest := by
    simp [quote]
  have hfuel : (Text.Utf8.ofString s).length <
      ((Text.Utf8.ofString s).flatMap escapeByte ++ 34 :: rest).length + 1 := by
    have := length_le_flatMap (Text.Utf8.ofString s)
    rw [List.length_append]
    omega
  rw [htail]
  unfold string
  rw [stringLoop_flatMap _ hfuel]
  simp [bind, Except.bind, Text.Utf8.toString?_ofString]

end Json.Reader
end WorkerHost
