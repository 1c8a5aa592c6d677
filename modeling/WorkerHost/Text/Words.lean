import WorkerHost.Numeric.Binary64
/-!
Blank characters, which are the twenty-five with the Unicode property `White_Space`, and what is
stated over them: trimming and the test for a blank line. Cutting a text in words or at separators,
and reading integers.
-/

namespace WorkerHost.Text

/-! ## Blanks -/

/-- A character with the Unicode property `White_Space`. -/
def isBlank (c : Char) : Bool :=
  let n := c.toNat
  (9 ≤ n && n ≤ 13) || n == 0x20 || n == 0x85 || n == 0xA0 || n == 0x1680 ||
    (0x2000 ≤ n && n ≤ 0x200A) || n == 0x2028 || n == 0x2029 || n == 0x202F || n == 0x205F ||
    n == 0x3000

/-- Every character that core calls white space is blank. -/
theorem isBlank_of_isWhitespace {c : Char} (h : c.isWhitespace = true) : isBlank c = true := by
  simp only [Char.isWhitespace, Bool.or_eq_true, decide_eq_true_eq] at h
  rcases h with ((h | h) | h) | h <;> subst h <;> decide

/-- The text without the blank characters at its front. -/
def trimStart (s : List Char) : List Char :=
  s.dropWhile isBlank

/-- The text without the blank characters at its end. -/
def trimEnd (s : List Char) : List Char :=
  (s.reverse.dropWhile isBlank).reverse

/-- The text without the blank characters at either end. -/
def trim (s : List Char) : List Char :=
  trimEnd (trimStart s)

/-- A text of blank characters only, such as the empty one. -/
def allBlank (s : List Char) : Bool :=
  s.all isBlank

/-! ## Words and integers -/

/-- The text before the first character of a class and the text after it, if there is one. -/
def splitOnce (p : Char → Bool) (s : List Char) : Option (List Char × List Char) :=
  match s.dropWhile (fun c => !p c) with
  | [] => none
  | _ :: rest => some (s.takeWhile (fun c => !p c), rest)

/-- The words between blanks. -/
def words (s : List Char) : List (List Char) :=
  (s.splitOnP isBlank).filter (!·.isEmpty)

/-- The value of decimal digits. -/
def decimal (ds : List Char) : Nat :=
  ds.foldl (fun n c => n * 10 + (c.toNat - 48)) 0

/-- The value of decimal digits; none if there is no digit or something else. -/
def digits? (s : List Char) : Option Nat :=
  if !s.isEmpty && s.all Char.isDigit then some (decimal s) else none

/-- An integer of 64 bits: digits, perhaps after a sign. -/
def int64? (s : List Char) : Option Int64 := do
  let (negative, ds) :=
    match s with
    | '-' :: ds => (true, ds)
    | '+' :: ds => (false, ds)
    | ds => (false, ds)
  let n ← digits? ds
  let z : Int := if negative then -n else n
  guard (-2 ^ 63 ≤ z ∧ z < 2 ^ 63)
  return Int64.ofInt z

end WorkerHost.Text
