import WorkerHost.Proofs.Stream.Sinks

/-!
# Reading what is malformed

Malformed bytes are read piece by piece too. What stands at the front is told by the bytes up to
its end, `next_append_of_char` and `next_append_of_malformed`, and behind its first byte there are
only continuation bytes in it, `exists_eq_append_after`. The text of some bytes goes on with the
text of what stands behind the front.
-/

namespace WorkerHost.Text.Utf8
variable {c : Char} {b : UInt8} {bytes rest : List UInt8}

/-- The bytes behind what stands at the front. -/
def Front.after : Front → List UInt8
  | .char _ rest => rest
  | .malformed rest => rest
  | .incomplete | .nothing => []

/-! ## The front -/

lemma next_eq_nothing : next bytes = .nothing ↔ bytes = [] := by
  fun_cases next bytes <;> simp

lemma next_append_of_char (h : next bytes = .char c rest) (more : List UInt8) :
    next (bytes ++ more) = .char c (rest ++ more) := by
  revert h
  fun_cases next bytes <;> intro h <;> cases h <;> simp [next, *]

lemma next_append_of_malformed (h : next bytes = .malformed rest) (more : List UInt8) :
    next (bytes ++ more) = .malformed (rest ++ more) := by
  revert h
  fun_cases next bytes <;> intro h <;> cases h <;> simp [next, *]

/-! ## Behind the first byte -/

lemma secondBounds_le {b lo hi : UInt8} {k : ℕ} (h : secondBounds b = some (k, lo, hi)) :
    hi ≤ 0xBF := by
  unfold secondBounds at h
  split_ifs at h <;> cases h <;> decide

lemma isContinuation_of_secondBounds {b b₂ lo hi : UInt8} {k : ℕ}
    (h : secondBounds b = some (k, lo, hi)) (hb₂ : ¬ !(lo ≤ b₂ && b₂ ≤ hi)) :
    isContinuation b₂ = true := by
  obtain ⟨hlo, hhi⟩ : lo ≤ b₂ ∧ b₂ ≤ hi := by simpa using hb₂
  rw [isContinuation, Bool.and_eq_true, decide_eq_true_eq, decide_eq_true_eq]
  exact ⟨UInt8.le_trans (le_of_secondBounds h) hlo, UInt8.le_trans hhi (secondBounds_le h)⟩

/-- No character starts with a continuation byte. -/
lemma secondBounds_of_isContinuation (h : isContinuation b = true) : secondBounds b = none := by
  obtain ⟨-, hle⟩ := (Bool.and_eq_true _ _).mp h
  have hle' : b.toNat ≤ 191 := UInt8.le_iff_toNat_le.1 (of_decide_eq_true hle)
  unfold secondBounds
  repeat rw [if_neg]
  all_goals
    simp [UInt8.le_iff_toNat_le, ← UInt8.toNat_inj]
    omega

lemma next_of_isContinuation (h : isContinuation b = true) (rest : List UInt8) :
    next (b :: rest) = .malformed rest := by
  have hb : ¬ b < 0x80 := UInt8.not_lt.2 (le_of_isContinuation h)
  rw [next, if_neg hb, secondBounds_of_isContinuation h]

/-- Behind its first byte there are only continuation bytes in what stands at the front. -/
lemma exists_eq_append_after (b : UInt8) (rest : List UInt8) :
    ∃ mid, rest = mid ++ (next (b :: rest)).after ∧ ∀ x ∈ mid, isContinuation x = true := by
  generalize hbytes : b :: rest = bytes
  fun_cases next bytes <;> cases hbytes
  case case2 | case3 | case4 | case5 => exact ⟨[], rfl, by simp⟩
  all_goals
    have hsecond := isContinuation_of_secondBounds ‹_› ‹_›
  case case6 | case7 | case8 => exact ⟨[_], rfl, by simpa⟩
  case case9 | case10 | case11 => exact ⟨[_, _], rfl, by simp_all⟩
  case case12 => exact ⟨[_, _, _], rfl, by simp_all⟩

lemma length_after_le (b : UInt8) (rest : List UInt8) :
    (next (b :: rest)).after.length ≤ rest.length := by
  obtain ⟨mid, hmid, -⟩ := exists_eq_append_after b rest
  conv_rhs => rw [hmid, List.length_append]
  exact Nat.le_add_left _ _

lemma after_singleton (b : UInt8) : (next [b]).after = [] :=
  List.length_eq_zero_iff.1 (Nat.le_zero.1 (length_after_le b []))

/-! ## The text -/

/-- The character of the text that stands for the front. -/
def Front.shown : Front → List Char
  | .char c _ => [c]
  | .malformed _ | .incomplete => [replacement]
  | .nothing => []

lemma decodeLossyLoop_nil (fuel : ℕ) (acc : List Char) :
    decodeLossyLoop fuel [] acc = acc.reverse := by
  cases fuel <;> rfl

lemma decodeLossyLoop_succ (fuel : ℕ) (bytes : List UInt8) (acc : List Char) :
    decodeLossyLoop (fuel + 1) bytes acc =
      decodeLossyLoop fuel (next bytes).after ((next bytes).shown ++ acc) := by
  rw [decodeLossyLoop]
  cases next bytes with
  | char | malformed => rfl
  | incomplete | nothing => exact (decodeLossyLoop_nil fuel _).symm

/-- Neither more fuel nor what has been read before changes what is read. -/
lemma decodeLossyLoop_append {fuel fuel' : ℕ} (h : bytes.length ≤ fuel)
    (h' : bytes.length ≤ fuel') (acc acc' : List Char) :
    decodeLossyLoop fuel bytes (acc ++ acc') = acc'.reverse ++ decodeLossyLoop fuel' bytes acc := by
  induction fuel generalizing fuel' bytes acc with
  | zero =>
    obtain rfl : bytes = [] := List.length_eq_zero_iff.1 (Nat.le_zero.1 h)
    rw [decodeLossyLoop_nil, decodeLossyLoop_nil, List.reverse_append]
  | succ fuel ih =>
    cases bytes with
    | nil => rw [decodeLossyLoop_nil, decodeLossyLoop_nil, List.reverse_append]
    | cons b rest =>
      obtain ⟨fuel', rfl⟩ : ∃ k, fuel' = k + 1 :=
        Nat.exists_eq_add_one.2 (Nat.lt_of_lt_of_le (Nat.succ_pos _) h')
      have hafter := length_after_le b rest
      rw [decodeLossyLoop_succ, decodeLossyLoop_succ, ← List.append_assoc,
        ih (hafter.trans (by simpa using h)) (hafter.trans (by simpa using h'))]

lemma decodeLossy_eq (bytes : List UInt8) :
    decodeLossy bytes = (next bytes).shown ++ decodeLossy (next bytes).after := by
  cases bytes with
  | nil => rfl
  | cons b rest =>
    have hone : (next (b :: rest)).shown.reverse = (next (b :: rest)).shown := by
      cases next (b :: rest) <;> rfl
    have h := decodeLossyLoop_append (length_after_le b rest) le_rfl [] (next (b :: rest)).shown
    rw [List.nil_append, hone] at h
    rwa [decodeLossy, List.length_cons, decodeLossyLoop_succ, List.append_nil]

lemma length_shown_cons (b : UInt8) (rest : List UInt8) :
    (next (b :: rest)).shown.length = 1 := by
  cases h : next (b :: rest) with
  | nothing => cases next_eq_nothing.1 h
  | _ => rfl

/-- A continuation byte that belongs to nothing is malformed. -/
lemma length_decodeLossy_append {mid : List UInt8} (h : ∀ x ∈ mid, isContinuation x = true)
    (rest : List UInt8) :
    (decodeLossy (mid ++ rest)).length = mid.length + (decodeLossy rest).length := by
  induction mid with
  | nil => simp
  | cons x mid ih =>
    have hx := next_of_isContinuation (h x List.mem_cons_self) (mid ++ rest)
    rw [List.cons_append, decodeLossy_eq, hx, List.length_append, Front.after,
      ih fun y hy => h y (List.mem_cons_of_mem x hy)]
    simp only [Front.shown, List.length_cons, List.length_nil]
    omega

/-- A byte that is read together with others is lost to them. -/
lemma length_decodeLossy_cons_lt (h : (next (b :: rest)).after ≠ rest) :
    (decodeLossy (b :: rest)).length < 1 + (decodeLossy rest).length := by
  obtain ⟨mid, hmid, hcontinuation⟩ := exists_eq_append_after b rest
  have hpos : 0 < mid.length := by
    rw [List.length_pos_iff]
    rintro rfl
    exact h hmid.symm
  have hrest : (decodeLossy rest).length =
      mid.length + (decodeLossy (next (b :: rest)).after).length := by
    conv_lhs => rw [hmid]
    exact length_decodeLossy_append hcontinuation _
  rw [decodeLossy_eq, List.length_append, length_shown_cons]
  omega

/-- A byte that is read on its own is read so whatever follows. -/
lemma shown_singleton (h : (next (b :: rest)).after = rest) :
    (next [b]).shown = (next (b :: rest)).shown := by
  generalize hbytes : b :: rest = bytes at h ⊢
  revert h
  fun_cases next bytes <;> cases hbytes
  case case2 | case3 | case4 | case5 => simp [next, *, Front.shown]
  -- of several bytes the first one is not alone
  all_goals
    intro h
    exact absurd (congrArg List.length h)
      (by simp only [Front.after, List.length_cons, List.length_nil]; omega)

lemma decodeLossy_cons_of_alone (h : (next (b :: rest)).after = rest) :
    decodeLossy (b :: rest) = decodeLossy [b] ++ decodeLossy rest := by
  have hnil : decodeLossy [] = [] := rfl
  rw [decodeLossy_eq, decodeLossy_eq [b], after_singleton, h, hnil, shown_singleton h,
    List.append_nil]

/-! ## Beginnings -/

/-- No more than the beginning of a character. -/
def Begun (bytes : List UInt8) : Prop :=
  next bytes = .incomplete ∨ next bytes = .nothing

lemma begun_nil : Begun [] := .inr rfl

/-- Where it is more, it stays so. -/
lemma Begun.of_append {more : List UInt8} (h : Begun (bytes ++ more)) : Begun bytes := by
  cases hfront : next bytes with
  | char c rest =>
    rw [Begun, next_append_of_char hfront] at h
    simp at h
  | malformed rest =>
    rw [Begun, next_append_of_malformed hfront] at h
    simp at h
  | incomplete => exact .inl hfront
  | nothing => exact .inr hfront

/-- A byte more finishes the character, or it cannot go on so. -/
lemma Begun.concat (h : Begun bytes) (b : UInt8) (hend : ¬ Begun (bytes ++ [b])) :
    (∃ c, next (bytes ++ [b]) = .char c []) ∨ next (bytes ++ [b]) = .malformed [] ∨
      next (bytes ++ [b]) = .malformed [b] := by
  have hcases : next bytes = .incomplete → (∃ c, next (bytes ++ [b]) = .char c []) ∨
      next (bytes ++ [b]) = .incomplete ∨ next (bytes ++ [b]) = .malformed [b] := by
    clear h hend
    fun_cases next bytes <;> intro h <;> cases h
    all_goals
      simp only [List.cons_append, List.nil_append, next, *]
      split_ifs <;> simp_all
  rcases h with h | h
  · rcases hcases h with hchar | hnext | hnext
    · exact .inl hchar
    · exact absurd (.inl hnext) hend
    · exact .inr (.inr hnext)
  · obtain rfl := next_eq_nothing.1 h
    have hafter := after_singleton b
    rw [List.nil_append] at hend ⊢
    cases hnext : next [b] with
    | char c rest =>
      rw [hnext] at hafter
      exact .inl ⟨c, congrArg _ hafter⟩
    | malformed rest =>
      rw [hnext] at hafter
      exact .inr (.inl (congrArg _ hafter))
    | incomplete => exact absurd (.inl hnext) hend
    | nothing => exact absurd (.inr hnext) hend

/-! ## Pieces -/

/-- Bytes are cut into pieces: one ends with the byte that makes it more than a beginning. -/
inductive Pieces : List UInt8 → Prop
  | last {bytes : List UInt8} (h : Begun bytes) : Pieces bytes
  | piece {bytes rest : List UInt8} {b : UInt8} (h : Begun bytes) (hend : ¬ Begun (bytes ++ [b]))
      (hrest : Pieces rest) : Pieces (bytes ++ b :: rest)

lemma pieces (bytes : List UInt8) : Pieces bytes := by
  suffices h : ∀ before, Begun before → Pieces (before ++ bytes) from h [] begun_nil
  induction bytes with
  | nil =>
    intro before h
    exact .last (by rwa [List.append_nil])
  | cons b rest ih =>
    intro before h
    by_cases hb : Begun (before ++ [b])
    · rw [List.append_cons]
      exact ih _ hb
    · exact .piece h hb (ih [] begun_nil)

/-- Whether the byte that ends a piece is torn off from bytes after it, with which it is read. -/
def Tears (bytes : List UInt8) (b : UInt8) (rest : List UInt8) : Prop :=
  next (bytes ++ [b]) = .malformed [b] ∧ (next (b :: rest)).after ≠ rest

/-- Some piece of the bytes is torn off from those behind it. -/
inductive Torn : List UInt8 → Prop
  | here {bytes rest : List UInt8} {b : UInt8} (h : Begun bytes) (hend : ¬ Begun (bytes ++ [b]))
      (htears : Tears bytes b rest) : Torn (bytes ++ b :: rest)
  | later {bytes rest : List UInt8} {b : UInt8} (h : Begun bytes) (hend : ¬ Begun (bytes ++ [b]))
      (hrest : Torn rest) : Torn (bytes ++ b :: rest)

lemma decodeLossy_append_of_malformed (h : next bytes = .malformed rest) (more : List UInt8) :
    decodeLossy (bytes ++ more) = replacement :: decodeLossy (rest ++ more) := by
  rw [decodeLossy_eq, next_append_of_malformed h]
  rfl

/-- Pieces are read on their own, unless one is torn. -/
lemma decodeLossy_append_cons (h : Begun bytes) (hend : ¬ Begun (bytes ++ [b]))
    (hwhole : ¬ Tears bytes b rest) :
    decodeLossy (bytes ++ b :: rest) = decodeLossy (bytes ++ [b]) ++ decodeLossy rest := by
  rw [List.append_cons]
  rcases h.concat b hend with ⟨c, hnext⟩ | hnext | hnext
  · rw [decodeLossy_eq, next_append_of_char hnext, decodeLossy_eq (bytes ++ [b]), hnext]
    rfl
  · rw [decodeLossy_append_of_malformed hnext, decodeLossy_eq (bytes ++ [b]), hnext]
    rfl
  · have halone : (next (b :: rest)).after = rest := of_not_not fun h => hwhole ⟨hnext, h⟩
    rw [decodeLossy_append_of_malformed hnext, decodeLossy_eq (bytes ++ [b]), hnext,
      List.singleton_append, decodeLossy_cons_of_alone halone]
    rfl

/-- The pieces of what is torn are read as more. -/
lemma length_decodeLossy_append_cons_lt (htears : Tears bytes b rest) :
    (decodeLossy (bytes ++ b :: rest)).length <
      (decodeLossy (bytes ++ [b])).length + (decodeLossy rest).length := by
  obtain ⟨hnext, hmore⟩ := htears
  have hlt := length_decodeLossy_cons_lt hmore
  have hone : (decodeLossy [b]).length = 1 := by
    rw [decodeLossy_eq, after_singleton, List.length_append, length_shown_cons]
    rfl
  rw [List.append_cons, decodeLossy_append_of_malformed hnext, decodeLossy_eq (bytes ++ [b]), hnext]
  simp only [List.singleton_append, List.length_cons, Front.shown, Front.after, hone]
  omega

lemma length_decodeLossy_append_cons_le (h : Begun bytes) (hend : ¬ Begun (bytes ++ [b]))
    (rest : List UInt8) : (decodeLossy (bytes ++ b :: rest)).length ≤
      (decodeLossy (bytes ++ [b])).length + (decodeLossy rest).length := by
  by_cases htears : Tears bytes b rest
  · exact (length_decodeLossy_append_cons_lt htears).le
  · rw [decodeLossy_append_cons h hend htears, List.length_append]

end WorkerHost.Text.Utf8
