import Mathlib.Tactic.Common
import Mathlib.Tactic.IntervalCases
import WorkerHost.Text.Utf8

/-!
# Reading what is encoded

The bytes of a character are read back as this character, whatever follows them, and any beginning
of them is the beginning of a character that more bytes could complete.
-/

namespace WorkerHost.Text.Utf8

/-! ## Strings -/

/-- A character of ASCII is one byte. -/
lemma encode_ascii {cs : List Char} (h : ∀ c ∈ cs, c.toNat < 128) :
    encode cs = cs.map fun c => UInt8.ofNat c.toNat := by
  induction cs with
  | nil => rfl
  | cons c cs ih =>
    have hc : c.utf8Size = 1 := by
      rw [Char.utf8Size_eq_one_iff]
      exact Nat.le_of_lt_succ (h c List.mem_cons_self)
    rw [encode, List.flatMap_cons, String.utf8EncodeChar_eq_singleton hc]
    exact congrArg _ (ih fun d hd => h d (List.mem_cons_of_mem _ hd))

lemma ofString_eq_encode (s : String) : ofString s = encode s.toList := by
  have hbytes : s.toUTF8 = s.toList.utf8Encode := String.utf8Encode_toList.symm
  rw [ofString, hbytes, List.utf8Encode, List.data_toByteArray]
  rfl

/-- The bytes of a string are UTF-8 and stand for it. -/
lemma toString?_ofString (s : String) : toString? (ofString s) = some s := by
  have hbytes : (⟨(ofString s).toArray⟩ : ByteArray) = s.toByteArray := by
    simp [ofString]
  rw [toString?, hbytes, String.fromUTF8?, dif_pos s.isValidUTF8]
  rfl

/-! ## Characters -/

/-- The bytes of a character, as they are read. -/
inductive Encodes : Char → List UInt8 → Prop
  | one {b : UInt8} (hb : b < 0x80) : Encodes (Char.ofNat b.toNat) [b]
  | two {b b₂ lo hi : UInt8} (hb : ¬ b < 0x80) (hbounds : secondBounds b = some (1, lo, hi))
      (h₂ : lo ≤ b₂ ∧ b₂ ≤ hi) :
      Encodes (Char.ofNat (b.toNat % 32 * 64 + payload b₂)) [b, b₂]
  | three {b b₂ b₃ lo hi : UInt8} (hb : ¬ b < 0x80) (hbounds : secondBounds b = some (2, lo, hi))
      (h₂ : lo ≤ b₂ ∧ b₂ ≤ hi) (h₃ : isContinuation b₃ = true) :
      Encodes (Char.ofNat ((b.toNat % 16 * 64 + payload b₂) * 64 + payload b₃)) [b, b₂, b₃]
  | four {b b₂ b₃ b₄ lo hi : UInt8} (hb : ¬ b < 0x80) (hbounds : secondBounds b = some (3, lo, hi))
      (h₂ : lo ≤ b₂ ∧ b₂ ≤ hi) (h₃ : isContinuation b₃ = true) (h₄ : isContinuation b₄ = true) :
      Encodes (Char.ofNat (((b.toNat % 8 * 64 + payload b₂) * 64 + payload b₃) * 64 + payload b₄))
        [b, b₂, b₃, b₄]

lemma toNat_ofNat_of_lt {k : ℕ} (h : k < 256) : (UInt8.ofNat k).toNat = k := by
  rw [UInt8.toNat_ofNat']
  exact Nat.mod_eq_of_lt h

/-- A byte with the payload of a continuation byte. -/
lemma isContinuation_ofNat (k : ℕ) : isContinuation (UInt8.ofNat (k % 64 + 128)) = true ∧
    payload (UInt8.ofNat (k % 64 + 128)) = k % 64 := by
  have hk : (UInt8.ofNat (k % 64 + 128)).toNat = k % 64 + 128 := toNat_ofNat_of_lt (by omega)
  constructor
  · simp only [isContinuation, Bool.and_eq_true, decide_eq_true_eq, UInt8.le_iff_toNat_le, hk]
    simp
    omega
  · rw [payload, hk]
    omega

/-- The first byte of a character of two bytes. -/
lemma secondBounds_two {k : ℕ} (h : 2 ≤ k) (h' : k < 32) :
    secondBounds (UInt8.ofNat (k + 192)) = some (1, 0x80, 0xBF) := by
  have hb : (UInt8.ofNat (k + 192)).toNat = k + 192 := toNat_ofNat_of_lt (by omega)
  rw [secondBounds, if_pos]
  simp only [Bool.and_eq_true, decide_eq_true_eq, UInt8.le_iff_toNat_le, hb]
  simp
  omega

/-- The first byte of a character of three bytes, and what it asks of the second one. -/
lemma secondBounds_three {k : ℕ} (h : k < 16) : ∃ lo hi,
    secondBounds (UInt8.ofNat (k + 224)) = some (2, lo, hi) ∧ ∀ b : UInt8, 128 ≤ b.toNat →
      b.toNat ≤ 191 → (k = 0 → 160 ≤ b.toNat) → (k = 13 → b.toNat ≤ 159) → lo ≤ b ∧ b ≤ hi := by
  interval_cases k <;> refine ⟨_, _, rfl, fun b h₁ h₂ h₃ h₄ => ?_⟩ <;>
    simp only [UInt8.le_iff_toNat_le] <;> simp <;> omega

/-- The first byte of a character of four bytes, and what it asks of the second one. -/
lemma secondBounds_four {k : ℕ} (h : k < 5) : ∃ lo hi,
    secondBounds (UInt8.ofNat (k + 240)) = some (3, lo, hi) ∧ ∀ b : UInt8, 128 ≤ b.toNat →
      b.toNat ≤ 191 → (k = 0 → 144 ≤ b.toNat) → (k = 4 → b.toNat ≤ 143) → lo ≤ b ∧ b ≤ hi := by
  interval_cases k <;> refine ⟨_, _, rfl, fun b h₁ h₂ h₃ h₄ => ?_⟩ <;>
    simp only [UInt8.le_iff_toNat_le] <;> simp <;> omega

lemma not_lt_ofNat {k : ℕ} (h : 128 ≤ k) (h' : k < 256) : ¬ UInt8.ofNat k < 0x80 := by
  rw [UInt8.lt_iff_toNat_lt, toNat_ofNat_of_lt h']
  simpa using h

lemma encodes (c : Char) : Encodes c (String.utf8EncodeChar c) := by
  have hvalid : c.toNat < 55296 ∨ 57343 < c.toNat ∧ c.toNat < 1114112 := c.valid
  have hc : Char.ofNat c.toNat = c := Char.ofNat_toNat c
  generalize hv : c.toNat = v at *
  have hv' : c.val.toNat = v := hv
  have hlast := isContinuation_ofNat v
  simp only [String.utf8EncodeChar, hv']
  split_ifs with h₁ h₂ h₃
  · have hb := toNat_ofNat_of_lt (k := v) (by omega)
    have h := Encodes.one (b := UInt8.ofNat v) (by rw [UInt8.lt_iff_toNat_lt, hb]; simp; omega)
    rwa [hb, hc] at h
  · have hb := toNat_ofNat_of_lt (k := v / 64 % 32 + 192) (by omega)
    have hbetween : 0x80 ≤ UInt8.ofNat (v % 64 + 128) ∧ UInt8.ofNat (v % 64 + 128) ≤ 0xBF := by
      simpa [isContinuation] using hlast.1
    have h := Encodes.two (not_lt_ofNat (by omega) (by omega))
      (secondBounds_two (k := v / 64 % 32) (by omega) (by omega)) hbetween
    rw [hb, hlast.2] at h
    have hvalue : (v / 64 % 32 + 192) % 32 * 64 + v % 64 = v := by omega
    rwa [hvalue, hc] at h
  · have hmiddle := isContinuation_ofNat (v / 64)
    obtain ⟨lo, hi, hbounds, hsecond⟩ := secondBounds_three (k := v / 4096 % 16) (by omega)
    have hb := toNat_ofNat_of_lt (k := v / 4096 % 16 + 224) (by omega)
    have hb₂ := toNat_ofNat_of_lt (k := v / 64 % 64 + 128) (by omega)
    have h := Encodes.three (not_lt_ofNat (by omega) (by omega)) hbounds
      (hsecond (UInt8.ofNat (v / 64 % 64 + 128)) (by omega) (by omega) (by omega) (by omega))
      hlast.1
    rw [hb, hmiddle.2, hlast.2] at h
    have hvalue : ((v / 4096 % 16 + 224) % 16 * 64 + v / 64 % 64) * 64 + v % 64 = v := by omega
    rwa [hvalue, hc] at h
  · have hsecond := isContinuation_ofNat (v / 4096)
    have hthird := isContinuation_ofNat (v / 64)
    obtain ⟨lo, hi, hbounds, hbetween⟩ := secondBounds_four (k := v / 262144 % 8) (by omega)
    have hb := toNat_ofNat_of_lt (k := v / 262144 % 8 + 240) (by omega)
    have hb₂ := toNat_ofNat_of_lt (k := v / 4096 % 64 + 128) (by omega)
    have h := Encodes.four (not_lt_ofNat (by omega) (by omega)) hbounds
      (hbetween (UInt8.ofNat (v / 4096 % 64 + 128)) (by omega) (by omega) (by omega) (by omega))
      hthird.1 hlast.1
    rw [hb, hsecond.2, hthird.2, hlast.2] at h
    have hvalue : (((v / 262144 % 8 + 240) % 8 * 64 + v / 4096 % 64) * 64 + v / 64 % 64) * 64 +
      v % 64 = v := by omega
    rwa [hvalue, hc] at h

variable {c : Char} {bytes : List UInt8}

lemma Encodes.next_append (h : Encodes c bytes) (rest : List UInt8) :
    next (bytes ++ rest) = .char c rest := by
  cases h with
  | one hb => simp only [List.cons_append, List.nil_append, next, if_pos hb]
  | two hb hbounds h₂ => simp [next, hb, hbounds, h₂.1, h₂.2]
  | three hb hbounds h₂ h₃ => simp [next, hb, hbounds, h₂.1, h₂.2, h₃]
  | four hb hbounds h₂ h₃ h₄ => simp [next, hb, hbounds, h₂.1, h₂.2, h₃, h₄]

/-- A beginning of a character is no character yet. -/
lemma Encodes.next_take (h : Encodes c bytes) {k : ℕ} (hk : 0 < k) (hk' : k < bytes.length) :
    next (bytes.take k) = .incomplete := by
  cases h with
  | one hb => simp at hk'; omega
  | two hb hbounds h₂ =>
    obtain rfl : k = 1 := by simp at hk'; omega
    simp [next, hb, hbounds]
  | three hb hbounds h₂ h₃ =>
    obtain rfl | rfl : k = 1 ∨ k = 2 := by simp at hk'; omega
    all_goals simp [next, hb, hbounds, h₂.1, h₂.2]
  | four hb hbounds h₂ h₃ h₄ =>
    obtain rfl | rfl | rfl : k = 1 ∨ k = 2 ∨ k = 3 := by simp at hk'; omega
    all_goals simp [next, hb, hbounds, h₂.1, h₂.2, h₃]

/-- The second byte of a character is no newline. -/
lemma le_of_secondBounds {b lo hi : UInt8} {k : ℕ} (h : secondBounds b = some (k, lo, hi)) :
    0x80 ≤ lo := by
  unfold secondBounds at h
  split_ifs at h <;> cases h <;> decide

lemma le_of_isContinuation {b : UInt8} (h : isContinuation b = true) : 0x80 ≤ b :=
  of_decide_eq_true ((Bool.and_eq_true _ _).mp h).1

/-- The bytes of a character of more than one byte are all outside of ASCII. -/
lemma Encodes.singleton_or_high (h : Encodes c bytes) :
    (∃ b, bytes = [b]) ∨ ∀ b ∈ bytes, 0x80 ≤ b := by
  cases h with
  | one hb => exact .inl ⟨_, rfl⟩
  | two hb hbounds h₂ =>
    have hsecond := UInt8.le_trans (le_of_secondBounds hbounds) h₂.1
    exact .inr (by simp [UInt8.not_lt.1 hb, hsecond])
  | three hb hbounds h₂ h₃ =>
    have hsecond := UInt8.le_trans (le_of_secondBounds hbounds) h₂.1
    exact .inr (by simp [UInt8.not_lt.1 hb, hsecond, le_of_isContinuation h₃])
  | four hb hbounds h₂ h₃ h₄ =>
    have hsecond := UInt8.le_trans (le_of_secondBounds hbounds) h₂.1
    exact .inr (by
      simp [UInt8.not_lt.1 hb, hsecond, le_of_isContinuation h₃, le_of_isContinuation h₄])

/-- The bytes of a character other than the newline have no newline in them. -/
lemma Encodes.eq_newline (h : Encodes c bytes) (hmem : 10 ∈ bytes) : bytes = [10] := by
  rcases h.singleton_or_high with ⟨b, rfl⟩ | hhigh
  · rw [List.mem_singleton.1 hmem]
  · exact absurd (hhigh 10 hmem) (by decide)

end WorkerHost.Text.Utf8
