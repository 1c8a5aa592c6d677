import Mathlib.Data.List.TakeWhile
import WorkerHost.Proofs.Json.Reader
import WorkerHost.Proofs.Outcome
import WorkerHost.Proofs.Text.Utf8

/-!
# Numbers

A number ends where something else begins, so what is read depends on what follows. Two ways lead
around that:

* an integer is followed digit by digit, `numeral_int`;
* for a float nothing is known about the digits. `LocalAt` says that a reader which reads the
  whole of a text reads the same where the text stands inside another one, and every reader of a
  part of a number has that property. So a float that is read back from its text alone is read
  back anywhere, `numeral_float`.
-/

namespace WorkerHost.Json

lemma Stops.head {b : UInt8} {rest : List UInt8} (h : Stops (b :: rest)) :
    b = 44 ∨ b = 93 ∨ b = 125 :=
  h b rfl

lemma Stops.not_isDigit {rest : List UInt8} (h : Stops rest) :
    ∀ b ∈ rest.head?, Reader.isDigit b = false := by
  intro b hb
  rcases h b hb with rfl | rfl | rfl <;> rfl

/-- The text of the float alone, if it is finite, is read back as that float. -/
def ReadsBack (x : Binary64) : Prop :=
  x.isFinite = true → Document.read (Document.num (.float x)).write = .ok (.num (.float x))

namespace Reader
variable {α β : Type} {r : Reader α} {s s' rest : List UInt8}

/-- The text of a number, after its sign if it has one. -/
inductive Numeral : List UInt8 → Number → Prop
  | negative {t : List UInt8} {n : Number} (h : Takes (number true) t n) : Numeral (45 :: t) n
  | positive {b : UInt8} {t : List UInt8} {n : Number} (hb : isDigit b = true)
      (h : Takes (number false) (b :: t) n) : Numeral (b :: t) n

/-! ## Integers -/

lemma takeWhile_append_stops (h : Stops rest) :
    (s ++ rest).takeWhile isDigit = s.takeWhile isDigit := by
  induction s with
  | nil =>
    cases rest with
    | nil => rfl
    | cons b rest => simp [h.not_isDigit b rfl]
  | cons b s ih =>
    rw [List.cons_append, List.takeWhile_cons, List.takeWhile_cons, ih]

lemma dropWhile_append_stops (h : Stops rest) :
    (s ++ rest).dropWhile isDigit = s.dropWhile isDigit ++ rest := by
  induction s with
  | nil =>
    cases rest with
    | nil => rfl
    | cons b rest => simp [h.not_isDigit b rfl]
  | cons b s ih =>
    rw [List.cons_append, List.dropWhile_cons, List.dropWhile_cons]
    split
    · exact ih
    · rfl

lemma toNat_lt_of_isDigit {cs : List Char} (h : ∀ c ∈ cs, c.isDigit = true) :
    ∀ c ∈ cs, c.toNat < 128 := by
  intro c hc
  obtain ⟨-, hle⟩ := Char.isDigit_iff_toNat.1 (h c hc)
  exact Nat.lt_of_le_of_lt hle (by decide)

lemma toNat_ofNat_digit {c : Char} (hc : c.isDigit = true) :
    (UInt8.ofNat c.toNat).toNat = c.toNat := by
  obtain ⟨-, hle⟩ := Char.isDigit_iff_toNat.1 hc
  have hnine : '9'.toNat = 57 := rfl
  rw [UInt8.toNat_ofNat']
  omega

lemma isDigit_ofNat {c : Char} (hc : c.isDigit = true) : isDigit (UInt8.ofNat c.toNat) = true := by
  obtain ⟨hge, hle⟩ := Char.isDigit_iff_toNat.1 hc
  have hzero : '0'.toNat = 48 := rfl
  have hnine : '9'.toNat = 57 := rfl
  have htoNat := toNat_ofNat_digit hc
  simp only [isDigit, Bool.and_eq_true, decide_eq_true_eq, UInt8.le_iff_toNat_le, htoNat]
  exact ⟨hge, hle⟩

/-- Digits are read up to their end. -/
lemma digits_encode {cs : List Char} (h : ∀ c ∈ cs, c.isDigit = true) (hrest : Stops rest) :
    digits (Text.Utf8.encode cs ++ rest) = .ok (cs.map fun c => c.toNat - 48, rest) := by
  have hall : ∀ b ∈ cs.map fun c => UInt8.ofNat c.toNat, isDigit b = true := by
    intro b hb
    obtain ⟨c, hc, rfl⟩ := List.mem_map.1 hb
    exact isDigit_ofNat (h c hc)
  have hvalues : (cs.map fun c => UInt8.ofNat c.toNat).map (fun b => b.toNat - 48) =
      cs.map fun c => c.toNat - 48 := by
    rw [List.map_map]
    apply List.map_congr_left
    intro c hc
    rw [Function.comp_apply, toNat_ofNat_digit (h c hc)]
  unfold digits
  rw [Text.Utf8.encode_ascii (toNat_lt_of_isDigit h), takeWhile_append_stops hrest,
    dropWhile_append_stops hrest, List.takeWhile_eq_self_iff.2 hall,
    List.dropWhile_eq_nil_iff.2 hall, hvalues]
  rfl

lemma le_ofDigitChars (cs : List Char) (v : ℕ) : v ≤ Nat.ofDigitChars 10 cs v := by
  induction cs generalizing v with
  | nil => simp
  | cons c cs ih =>
    rw [Nat.ofDigitChars_cons]
    exact Nat.le_trans (by omega) (ih _)

/-- While the value fits 64 bits, every digit is kept. -/
lemma foldl_push {cs : List Char} {v k : ℕ} (h : Nat.ofDigitChars 10 cs v < 2 ^ 64) :
    (cs.map fun c => c.toNat - 48).foldl Significand.push ⟨v, k, 0⟩ =
      ⟨Nat.ofDigitChars 10 cs v, k + cs.length, 0⟩ := by
  induction cs generalizing v k with
  | nil => simp
  | cons c cs ih =>
    have hzero : '0'.toNat = 48 := rfl
    rw [Nat.ofDigitChars_cons, hzero, Nat.mul_comm 10] at h
    have hfits : v * 10 + (c.toNat - 48) < 2 ^ 64 := Nat.lt_of_le_of_lt (le_ofDigitChars cs _) h
    have hpush : Significand.push ⟨v, k, 0⟩ (c.toNat - 48) =
        ⟨v * 10 + (c.toNat - 48), k + 1, 0⟩ := by
      unfold Significand.push
      rw [if_pos]
      rw [Bool.and_eq_true]
      exact ⟨rfl, decide_eq_true hfits⟩
    rw [List.map_cons, List.foldl_cons, hpush, ih h, Nat.ofDigitChars_cons, hzero,
      Nat.mul_comm 10, List.length_cons, Nat.add_assoc, Nat.add_comm 1]

/-- No number but zero begins with the digit zero. -/
lemma exists_toDigits {n : ℕ} (hn : 0 < n) : ∃ c cs, Nat.toDigits 10 n = c :: cs ∧ c ≠ '0' := by
  induction n using Nat.strongRecOn with
  | ind n ih =>
    rw [Nat.toDigits_eq_if (by decide)]
    split
    · next hlt =>
      refine ⟨_, [], rfl, ?_⟩
      have hdigit : ∀ k < 10, 0 < k → k.digitChar ≠ '0' := by decide
      exact hdigit n hlt hn
    · next hge =>
      obtain ⟨c, cs, hcs, hc⟩ := ih (n / 10) (by omega) (by omega)
      exact ⟨c, cs ++ [(n % 10).digitChar], by rw [hcs]; rfl, hc⟩

lemma afterInteger_stops (negative : Bool) (m : Significand) (hrest : Stops rest) :
    afterInteger negative m rest = afterInteger.whole negative m rest := by
  cases rest with
  | nil => rfl
  | cons b rest => rcases hrest.head with rfl | rfl | rfl <;> rfl

/-- The digits of a number of 64 bits give it. -/
lemma number_toDigits {n : ℕ} (hn : n < 2 ^ 64) (negative : Bool) (hrest : Stops rest) :
    ∃ k, number negative (Text.Utf8.encode (Nat.toDigits 10 n) ++ rest) =
      afterInteger.whole negative ⟨n, k, 0⟩ rest := by
  rcases Nat.eq_zero_or_pos n with rfl | hpos
  · refine ⟨1, ?_⟩
    rw [← afterInteger_stops negative _ hrest]
    cases rest with
    | nil => rfl
    | cons b rest => rcases hrest.head with rfl | rfl | rfl <;> rfl
  · obtain ⟨c, cs, hcs, hc⟩ := exists_toDigits hpos
    have hdigits : ∀ d ∈ Nat.toDigits 10 n, d.isDigit = true :=
      fun d hd => Nat.isDigit_of_mem_toDigits (by decide) (by decide) hd
    have hdigit : c.isDigit = true := hdigits c (hcs ▸ List.mem_cons_self)
    have hread := digits_encode hdigits hrest
    have hvalue : Significand.ofDigits 0 ((Nat.toDigits 10 n).map fun c => c.toNat - 48) =
        ⟨n, 0 + (Nat.toDigits 10 n).length, 0⟩ := by
      rw [Significand.ofDigits, foldl_push (by simpa using hn), Nat.ofDigitChars_ten_toDigits]
    -- a leading zero would end the integer at once
    have hbyte : ¬ (UInt8.ofNat c.toNat == byte '0') = true := by
      intro heq
      have hnat := congrArg UInt8.toNat (eq_of_beq heq)
      rw [toNat_ofNat_digit hdigit] at hnat
      exact hc (Char.toNat_inj.1 hnat)
    refine ⟨0 + (Nat.toDigits 10 n).length, ?_⟩
    rw [← afterInteger_stops negative _ hrest, ← hvalue]
    -- the first digit chooses the branch, then all digits are read anew
    obtain ⟨t, ht⟩ : ∃ t, Text.Utf8.encode (Nat.toDigits 10 n) ++ rest =
        UInt8.ofNat c.toNat :: t := by
      rw [Text.Utf8.encode_ascii (toNat_lt_of_isDigit hdigits), hcs]
      exact ⟨_, rfl⟩
    rw [ht] at hread ⊢
    show (if UInt8.ofNat c.toNat == byte '0' then _
      else if isDigit (UInt8.ofNat c.toNat) then
        digits >>= fun ds => afterInteger negative (Significand.ofDigits 0 ds)
      else _) (UInt8.ofNat c.toNat :: t) = _
    rw [if_neg hbyte, if_pos (isDigit_ofNat hdigit), bind_run hread]

/-- An integer that a document keeps exactly is read back. -/
lemma numeral_int {i : ℤ} (hlow : -2 ^ 63 ≤ i) (hhigh : i < 2 ^ 64) :
    Numeral (Number.int i).write (.int i) := by
  rw [Number.write, Text.Utf8.ofString_eq_encode, Int.toString_eq_repr, Int.repr_eq_if]
  split
  · next hpos =>
    obtain ⟨n, rfl⟩ := Int.eq_ofNat_of_zero_le hpos
    have hn : n < 2 ^ 64 := by omega
    have hdigits : ∀ d ∈ Nat.toDigits 10 n, d.isDigit = true :=
      fun d hd => Nat.isDigit_of_mem_toDigits (by decide) (by decide) hd
    have hread : Takes (number false) (Text.Utf8.encode (Nat.toDigits 10 n)) (.int n) := by
      intro rest hrest
      obtain ⟨k, hk⟩ := number_toDigits hn false hrest
      rw [hk]
      rfl
    rw [Int.toNat_natCast, Nat.toList_repr]
    cases hcs : Nat.toDigits 10 n with
    | nil => exact absurd hcs Nat.toDigits_ne_nil
    | cons c cs =>
      rw [hcs] at hread hdigits
      rw [Text.Utf8.encode_ascii (toNat_lt_of_isDigit hdigits)] at hread ⊢
      exact .positive (isDigit_ofNat (hdigits c List.mem_cons_self)) hread
  -- the sign is read by itself, the digits after it are those of the absolute value
  · next hneg =>
    obtain ⟨n, hn⟩ := Int.eq_ofNat_of_zero_le (show 0 ≤ -i by omega)
    have htext : ("-" ++ (-i).toNat.repr).toList = '-' :: Nat.toDigits 10 n := by
      rw [String.toList_append, hn, Int.toNat_natCast, Nat.toList_repr]
      rfl
    rw [htext]
    refine .negative fun rest hrest => ?_
    obtain ⟨k, hk⟩ := number_toDigits (show n < 2 ^ 64 by omega) true hrest
    have hzero : (n == 0) = false := by
      rw [beq_eq_false_iff_ne]
      omega
    have hfits : ¬ 2 ^ 63 < n := by omega
    show number true (Text.Utf8.encode (Nat.toDigits 10 n) ++ rest) = _
    rw [hk]
    unfold afterInteger.whole
    simp only [hzero, hfits]
    rw [← hn, Int.neg_neg]
    rfl

/-! ## Parts of numbers inside longer texts -/

/-- What the reader makes of a text, it makes of it wherever a value may end. -/
def LocalAt (r : Reader α) (s : List UInt8) : Prop :=
  ∀ a s', r s = .ok (a, s') →
    s' <:+ s ∧ ∀ rest, Stops rest → r (s ++ rest) = .ok (a, s' ++ rest)

namespace LocalAt

lemma pure (a : α) : LocalAt (Pure.pure a : Reader α) s := by
  intro a s' heq
  cases heq
  exact ⟨List.suffix_refl _, fun rest _ => rfl⟩

lemma failHere (c : Cause) : LocalAt (failHere c : Reader α) s := by
  intro a s' heq
  cases heq

lemma failNext (c : Cause) : LocalAt (failNext c : Reader α) s := by
  intro a s' heq
  cases heq

lemma bind {f : α → Reader β} (hr : LocalAt r s)
    (hf : ∀ a s', r s = .ok (a, s') → LocalAt (f a) s') : LocalAt (r >>= f) s := by
  intro b s₂ h
  -- the second reader begins where the first one stopped, with the same bytes behind it
  obtain ⟨⟨a, s₁⟩, h₁, h₂⟩ := bind_eq_ok.1 (show (r s >>= fun p => f p.1 p.2) = _ from h)
  obtain ⟨hsuffix, happend⟩ := hr a s₁ h₁
  obtain ⟨hsuffix', happend'⟩ := hf a s₁ h₁ b s₂ h₂
  refine ⟨hsuffix'.trans hsuffix, fun rest hrest => ?_⟩
  rw [bind_run (happend rest hrest)]
  exact happend' rest hrest

lemma ite {c : Prop} [Decidable c] {r' : Reader α} (hr : LocalAt r s) (hr' : LocalAt r' s) :
    LocalAt (if c then r else r') s := by
  split
  · exact hr
  · exact hr'

lemma skip_cons {b : UInt8} {f : Unit → Reader α} (hf : LocalAt (f ()) s) :
    LocalAt (skip >>= f) (b :: s) := by
  refine bind ?_ ?_
  · intro a s' heq
    cases heq
    exact ⟨List.suffix_cons b s, fun rest _ => rfl⟩
  · intro a s' heq
    cases heq
    exact hf

lemma peek_cons {b : UInt8} {f : Option UInt8 → Reader α} (hf : LocalAt (f (some b)) (b :: s)) :
    LocalAt (peek >>= f) (b :: s) :=
  hf

/-- At the end of the text, a byte that ends a value has to count as the end. -/
lemma peek_nil {f : Option UInt8 → Reader α} (hf : LocalAt (f none) [])
    (hstop : ∀ b : UInt8, b = 44 ∨ b = 93 ∨ b = 125 → f (some b) = f none) :
    LocalAt (peek >>= f) [] := by
  intro a s' h
  obtain ⟨hsuffix, happend⟩ := hf a s' h
  refine ⟨hsuffix, fun rest hrest => ?_⟩
  cases rest with
  | nil => exact happend [] hrest
  | cons b rest =>
    show f (some b) (b :: rest) = _
    rw [hstop b hrest.head]
    exact happend (b :: rest) hrest

lemma digits : LocalAt digits s := by
  intro ds s' heq
  cases heq
  refine ⟨List.dropWhile_suffix _, fun rest hrest => ?_⟩
  unfold Reader.digits
  rw [takeWhile_append_stops hrest, dropWhile_append_stops hrest]

lemma floatOf (negative : Bool) (value : ℕ) (exponent : ℤ) :
    LocalAt (floatOf negative value exponent) s := by
  unfold Reader.floatOf
  split
  · exact pure _
  · exact failHere _

end LocalAt

/-- The digits of an exponent end at a byte that ends a value. -/
lemma exponentDigits_append (e : ℕ) (s : List UInt8) {rest : List UInt8} (hrest : Stops rest) :
    exponentDigits e (s ++ rest) =
      match exponentDigits e s with
      | .ok (e', s') => .ok (e', s' ++ rest)
      | .error s' => .error (s' ++ rest) := by
  induction s generalizing e with
  | nil =>
    cases rest with
    | nil => rfl
    | cons b rest => simp [exponentDigits, hrest.not_isDigit b rfl]
  | cons b s ih =>
    rw [List.cons_append, exponentDigits, exponentDigits]
    split
    · dsimp only
      split
      · rfl
      · exact ih _
    · rfl

lemma suffix_of_exponentDigits {e : ℕ} {s : List UInt8} :
    (∀ e' s', exponentDigits e s = .ok (e', s') → s' <:+ s) ∧
      ∀ s', exponentDigits e s = .error s' → s' <:+ s := by
  induction s generalizing e with
  | nil =>
    constructor
    · intro e' s' heq
      cases heq
      exact List.suffix_refl _
    · intro s' heq
      cases heq
  | cons b s ih =>
    rw [exponentDigits]
    split
    · dsimp only
      split
      · constructor
        · intro e' s' heq
          cases heq
        · intro s' heq
          cases heq
          exact List.suffix_cons b _
      · exact ⟨fun e' s' h => (ih.1 e' s' h).trans (List.suffix_cons b s),
          fun s' h => (ih.2 s' h).trans (List.suffix_cons b s)⟩
    · constructor
      · intro e' s' heq
        cases heq
        exact List.suffix_refl _
      · intro s' heq
        cases heq

namespace LocalAt

lemma exponentValue (negative : Bool) (value : ℕ) (start : ℤ) (positive : Bool) :
    LocalAt (exponentValue negative value start positive) s := by
  intro n s' h
  unfold Reader.exponentValue at h ⊢
  cases he : exponentDigits 0 s with
  | ok p =>
    obtain ⟨e, t⟩ := p
    rw [he] at h
    obtain ⟨hsuffix, happend⟩ := floatOf _ _ _ n s' h
    refine ⟨hsuffix.trans (suffix_of_exponentDigits.1 e t he), fun rest hrest => ?_⟩
    rw [exponentDigits_append 0 s hrest, he]
    exact happend rest hrest
  | error t =>
    rw [he] at h
    dsimp only at h
    split at h
    · cases h
    · next hvalue =>
      cases h
      refine ⟨(List.dropWhile_suffix _).trans (suffix_of_exponentDigits.2 t he), ?_⟩
      intro rest hrest
      rw [exponentDigits_append 0 s hrest, he]
      simp only [hvalue, dropWhile_append_stops hrest]
      rfl

lemma exponentSign : LocalAt exponentSign s := by
  unfold Reader.exponentSign
  cases s with
  | nil =>
    refine peek_nil (pure _) ?_
    intro b h
    rcases h with rfl | rfl | rfl <;> rfl
  | cons b s => exact peek_cons (ite (skip_cons (pure _)) (ite (skip_cons (pure _)) (pure _)))

lemma exponentNumber (negative : Bool) (value : ℕ) (start : ℤ) (positive : Bool) :
    LocalAt (exponentNumber negative value start positive) s := by
  unfold Reader.exponentNumber
  cases s with
  | nil =>
    intro a s' heq
    cases heq
  | cons b s => exact peek_cons (ite (exponentValue _ _ _ _) (skip_cons (failHere _)))

lemma exponentPart (negative : Bool) (value : ℕ) (start : ℤ) {b : UInt8} :
    LocalAt (exponentPart negative value start) (b :: s) := by
  unfold Reader.exponentPart
  exact skip_cons (bind exponentSign fun _ _ _ => exponentNumber _ _ _ _)

lemma afterDigits (negative : Bool) (value : ℕ) (exponent : ℤ) :
    LocalAt (afterDigits negative value exponent) s := by
  unfold Reader.afterDigits
  cases s with
  | nil =>
    refine peek_nil (floatOf _ _ _) ?_
    intro b h
    rcases h with rfl | rfl | rfl <;> rfl
  | cons b s => exact peek_cons (ite (exponentPart _ _ _) (floatOf _ _ _))

lemma fractionPart (negative : Bool) (value : ℕ) (start : ℤ) {b : UInt8} :
    LocalAt (fractionPart negative value start) (b :: s) := by
  unfold Reader.fractionPart
  refine skip_cons (bind digits fun ds t _ => ite ?_ (afterDigits _ _ _))
  cases t with
  | nil =>
    intro a s' heq
    cases heq
  | cons b t =>
    intro a s' heq
    cases heq

lemma whole (negative : Bool) (m : Significand) : LocalAt (afterInteger.whole negative m) s := by
  unfold afterInteger.whole
  exact ite (floatOf _ _ _) (ite (pure _) (ite (pure _) (pure _)))

lemma afterInteger (negative : Bool) (m : Significand) :
    LocalAt (afterInteger negative m) s := by
  unfold Reader.afterInteger
  cases s with
  | nil =>
    refine peek_nil (whole _ _) ?_
    intro b h
    rcases h with rfl | rfl | rfl <;> rfl
  | cons b s => exact peek_cons (ite (fractionPart _ _ _) (ite (exponentPart _ _ _) (whole _ _)))

lemma number (negative : Bool) : LocalAt (number negative) s := by
  unfold Reader.number
  cases s with
  | nil =>
    intro a s' heq
    cases heq
  | cons b s =>
    refine peek_cons (ite (skip_cons ?_) (ite (bind digits fun _ _ _ => afterInteger _ _) ?_))
    · cases s with
      | nil =>
        refine peek_nil (afterInteger _ _) ?_
        intro b h
        rcases h with rfl | rfl | rfl <;> rfl
      | cons b s => exact peek_cons (ite (failNext _) (afterInteger _ _))
    · exact skip_cons (failHere _)

end LocalAt

/-! ## Where a number begins -/

lemma peekToken_digit {b : UInt8} (hb : isDigit b = true) :
    peekToken (b :: s) = .ok (some b, b :: s) := by
  refine peekToken_cons ?_
  by_contra hblank
  simp only [isBlank, Bool.not_eq_false, Bool.or_eq_true, beq_iff_eq] at hblank
  rcases hblank with ((rfl | rfl) | rfl) | rfl <;> cases hb

/-- A byte that is no digit. -/
lemma ne_of_isDigit {b c : UInt8} (hb : isDigit b = true) (hc : isDigit c = false) :
    (b == c) = false := by
  rw [beq_eq_false_iff_ne]
  intro heq
  subst heq
  rw [hb] at hc
  cases hc

lemma document_digit {b : UInt8} (hb : isDigit b = true) (depth : ℕ) :
    document depth (b :: s) = (.num <$> number false : Reader Document) (b :: s) := by
  unfold document
  rw [bind_run (peekToken_digit hb)]
  simp only [ne_of_isDigit hb (show isDigit (byte 'n') = false from rfl),
    ne_of_isDigit hb (show isDigit (byte 't') = false from rfl),
    ne_of_isDigit hb (show isDigit (byte 'f') = false from rfl),
    ne_of_isDigit hb (show isDigit (byte '-') = false from rfl), hb, Bool.false_eq_true,
    if_false, if_true, map_eq_pure_bind]

lemma document_minus (depth : ℕ) :
    document depth (45 :: s) = (.num <$> number true : Reader Document) s := by
  unfold document
  rw [bind_run (peekToken_cons rfl), map_eq_pure_bind]
  rfl

/-- A number is read back as a document. -/
lemma Numeral.document {n : Number} (h : Numeral s n) (depth : ℕ) :
    Takes (document depth) s (.num n) := by
  cases h with
  | negative h =>
    intro rest hrest
    rw [List.cons_append, document_minus]
    exact h.map _ rest hrest
  | positive hb h =>
    intro rest hrest
    rw [List.cons_append, document_digit hb, ← List.cons_append]
    exact h.map _ rest hrest

/-! ## Floats -/

/-- The characters of numbers. -/
def IsNumeral (c : Char) : Prop :=
  c.isDigit = true ∨ c = '-' ∨ c = '+' ∨ c = '.' ∨ c = 'e'

lemma isNumeral_of_mem_toDigits {n : ℕ} {c : Char} (hc : c ∈ Nat.toDigits 10 n) : IsNumeral c :=
  .inl (Nat.isDigit_of_mem_toDigits (by decide) (by decide) hc)

lemma isNumeral_plain {ds : List Char} (hds : ∀ c ∈ ds, IsNumeral c) (e : ℤ) :
    ∀ c ∈ FloatLayout.plain ds e, IsNumeral c := by
  have hzero : ∀ n, ∀ c ∈ List.replicate n '0', IsNumeral c := by
    intro n c hc
    rw [List.eq_of_mem_replicate hc]
    exact .inl rfl
  intro c hc
  unfold FloatLayout.plain at hc
  split at hc
  · simp only [List.cons_append, List.mem_cons, List.mem_append] at hc
    rcases hc with rfl | rfl | hc | hc
    · exact .inl rfl
    · exact .inr (.inr (.inr (.inl rfl)))
    · exact hzero _ c hc
    · exact hds c hc
  · simp only [List.mem_append, List.mem_cons] at hc
    rcases hc with (hc | hc) | rfl | hc
    · exact hds c (List.mem_of_mem_take hc)
    · exact hzero _ c hc
    · exact .inr (.inr (.inr (.inl rfl)))
    · split at hc
      · rw [List.mem_singleton.1 hc]
        exact .inl rfl
      · exact hds c (List.mem_of_mem_drop hc)

lemma isNumeral_scientific {ds : List Char} (hds : ∀ c ∈ ds, IsNumeral c) (layout : FloatLayout)
    (e : ℤ) : ∀ c ∈ layout.scientific ds e, IsNumeral c := by
  intro c hc
  simp only [FloatLayout.scientific, List.mem_append, List.mem_cons] at hc
  rcases hc with (hc | rfl | hc) | hc
  · cases ds with
    | nil => cases hc
    | cons d ds =>
      rcases List.mem_cons.1 hc with rfl | hc
      · exact hds _ List.mem_cons_self
      · split at hc
        · cases hc
        · rcases List.mem_cons.1 hc with rfl | hc
          · exact .inr (.inr (.inr (.inl rfl)))
          · exact hds c (List.mem_cons_of_mem _ hc)
  · exact .inr (.inr (.inr (.inr rfl)))
  · split_ifs at hc
    · rw [List.mem_singleton.1 hc]
      exact .inr (.inl rfl)
    · rw [List.mem_singleton.1 hc]
      exact .inr (.inr (.inl rfl))
    · cases hc
  · exact isNumeral_of_mem_toDigits hc

/-- A float is written in the characters of numbers, and not as nothing. -/
lemma isNumeral_finite (layout : FloatLayout) (x : Binary64) :
    (layout.finite x).toList ≠ [] ∧ ∀ c ∈ (layout.finite x).toList, IsNumeral c := by
  have hsign : ∀ c ∈ if x.isNegative then ['-'] else [], IsNumeral c := by
    intro c hc
    split at hc
    · rw [List.mem_singleton.1 hc]
      exact .inr (.inl rfl)
    · cases hc
  have hds : ∀ c ∈ Nat.toDigits 10 (Shortest.digits layout.tie x).digits, IsNumeral c :=
    fun c hc => isNumeral_of_mem_toDigits hc
  unfold FloatLayout.finite
  dsimp only
  split
  · rw [String.toList_ofList]
    refine ⟨by simp, fun c hc => ?_⟩
    rcases List.mem_append.1 hc with hc | hc
    · exact hsign c hc
    · have hzero : ∀ d ∈ ['0'], IsNumeral d := by
        intro d hd
        rw [List.mem_singleton.1 hd]
        exact .inl rfl
      exact isNumeral_plain hzero 0 c hc
  -- both layouts are made of the shortest digits
  · set d := Shortest.digits layout.tie x
    have hbody : ∀ isPlain : Bool,
        (if isPlain then FloatLayout.plain (Nat.toDigits 10 d.digits) d.exponent
          else layout.scientific (Nat.toDigits 10 d.digits) d.exponent) ≠ [] ∧
        ∀ c ∈ if isPlain then FloatLayout.plain (Nat.toDigits 10 d.digits) d.exponent
          else layout.scientific (Nat.toDigits 10 d.digits) d.exponent, IsNumeral c := by
      intro isPlain
      cases isPlain
      · exact ⟨by simp [FloatLayout.scientific], isNumeral_scientific hds layout _⟩
      · refine ⟨?_, isNumeral_plain hds _⟩
        show FloatLayout.plain _ _ ≠ []
        unfold FloatLayout.plain
        split <;> simp
    obtain ⟨hne, hall⟩ := hbody _
    rw [String.toList_ofList]
    refine ⟨List.append_ne_nil_of_right_ne_nil _ hne, fun c hc => ?_⟩
    rcases List.mem_append.1 hc with hc | hc
    · exact hsign c hc
    · exact hall c hc

/-- The bytes of numbers. -/
def IsNumeralByte (b : UInt8) : Prop :=
  isDigit b = true ∨ b = 45 ∨ b = 43 ∨ b = 46 ∨ b = 101

lemma IsNumeralByte.not_isBlank {b : UInt8} (h : IsNumeralByte b) : isBlank b = false := by
  rcases h with h | rfl | rfl | rfl | rfl
  · by_contra hblank
    simp only [isBlank, Bool.not_eq_false, Bool.or_eq_true, beq_iff_eq] at hblank
    rcases hblank with ((rfl | rfl) | rfl) | rfl <;> cases h
  all_goals rfl

/-- A number is written in the bytes of numbers, and not as nothing. -/
lemma isNumeralByte_write (n : Number) : n.write ≠ [] ∧ ∀ b ∈ n.write, IsNumeralByte b := by
  have hchars : ∃ cs, n.write = Text.Utf8.encode cs ∧ cs ≠ [] ∧ ∀ c ∈ cs, IsNumeral c := by
    cases n with
    | float x => exact ⟨_, Text.Utf8.ofString_eq_encode _, isNumeral_finite _ x⟩
    | int i =>
      refine ⟨_, Text.Utf8.ofString_eq_encode _, ?_⟩
      rw [Int.toString_eq_repr, Int.repr_eq_if]
      split
      · rw [Nat.toList_repr]
        exact ⟨Nat.toDigits_ne_nil, fun c hc => isNumeral_of_mem_toDigits hc⟩
      · rw [String.toList_append, Nat.toList_repr]
        refine ⟨List.append_ne_nil_of_right_ne_nil _ Nat.toDigits_ne_nil, fun c hc => ?_⟩
        rcases List.mem_append.1 hc with hc | hc
        · exact .inr (.inl (List.mem_singleton.1 hc))
        · exact isNumeral_of_mem_toDigits hc
  obtain ⟨cs, hwrite, hne, hcs⟩ := hchars
  have hascii : ∀ c ∈ cs, c.toNat < 128 := by
    intro c hc
    rcases hcs c hc with hd | rfl | rfl | rfl | rfl
    · have hone : ∀ e ∈ [c], e.isDigit = true := by simpa using hd
      exact toNat_lt_of_isDigit hone c List.mem_cons_self
    all_goals decide
  rw [hwrite, Text.Utf8.encode_ascii hascii]
  refine ⟨by simpa using hne, fun b hb => ?_⟩
  obtain ⟨c, hc, rfl⟩ := List.mem_map.1 hb
  rcases hcs c hc with hd | rfl | rfl | rfl | rfl
  · exact .inl (isDigit_ofNat hd)
  · exact .inr (.inl rfl)
  · exact .inr (.inr (.inl rfl))
  · exact .inr (.inr (.inr (.inl rfl)))
  · exact .inr (.inr (.inr (.inr rfl)))

/-- What is left of a number that was read with its whole text is nothing. -/
lemma eq_nil_of_number {negative : Bool} {n : Number} (h : number negative s = .ok (n, s'))
    (hbytes : ∀ b ∈ s, IsNumeralByte b) (hs' : s'.dropWhile isBlank = []) : s' = [] := by
  obtain ⟨hsuffix, -⟩ := LocalAt.number negative n s' h
  cases s' with
  | nil => rfl
  | cons b t =>
    have hblank := (hbytes b (hsuffix.subset List.mem_cons_self)).not_isBlank
    rw [List.dropWhile_cons, hblank] at hs'
    cases hs'

/-- A float that is read back from its text alone is read back wherever a value may end. -/
lemma numeral_float {x : Binary64} (h : ReadsBack x) (hx : x.isFinite = true) :
    Numeral (Number.float x).write (.float x) := by
  obtain ⟨hne, hbytes⟩ := isNumeralByte_write (.float x)
  -- nothing is known of the digits but that they are bytes of numbers and read back by themselves
  obtain ⟨s', hread, hs'⟩ := readAll_eq_ok.1 (h hx)
  rw [Document.write] at hread
  generalize (Number.float x).write = text at hne hbytes hread ⊢
  cases text with
  | nil => exact absurd rfl hne
  | cons b t =>
    have hrest : ∀ c ∈ t, IsNumeralByte c := fun c hc => hbytes c (List.mem_cons_of_mem _ hc)
    rcases hbytes b List.mem_cons_self with hb | rfl | hb
    · rw [document_digit hb] at hread
      obtain ⟨n, hnumber, hn⟩ := map_eq_ok.1 hread
      cases hn
      cases eq_nil_of_number hnumber hbytes hs'
      exact .positive hb (LocalAt.number false _ _ hnumber).2
    · rw [document_minus] at hread
      obtain ⟨n, hnumber, hn⟩ := map_eq_ok.1 hread
      cases hn
      cases eq_nil_of_number hnumber hrest hs'
      exact .negative (LocalAt.number true _ _ hnumber).2
    -- no value begins with a plus, a point or the mark of an exponent
    · have hfail : document maxDepth (b :: t) = .error ⟨.expectedValue, t.length⟩ := by
        unfold document
        rcases hb with rfl | rfl | rfl <;> rfl
      rw [hfail] at hread
      cases hread

/-- One and a half is such a float. -/
lemma readsBack_threeHalves : ReadsBack ⟨0x3FF8000000000000⟩ := by
  intro _
  have hscale : scale false 16 (Binary64.ofNat 15) (-1) = some ⟨0x3FF8000000000000⟩ := by
    decide +kernel
  have hfloat : floatOf false 15 (-1) [] = .ok (.float ⟨0x3FF8000000000000⟩, []) := by
    unfold floatOf
    rw [hscale]
    rfl
  have hnumber : number false [49, 46, 53] = .ok (.float ⟨0x3FF8000000000000⟩, []) := hfloat
  refine readAll_eq_ok.2 ⟨[], ?_, rfl⟩
  show document maxDepth [49, 46, 53] = _
  rw [document_digit rfl, map_run hnumber]

end Reader
end WorkerHost.Json
