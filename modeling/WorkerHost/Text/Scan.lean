/-!
Reading text from its front. A `Scan` either fails or gives a result and what is left of the text;
an alternative starts over where its predecessor started.
-/

namespace WorkerHost.Text

/-- A reader of the front of a text. -/
abbrev Scan (α : Type) := StateT (List Char) Option α

namespace Scan
variable {α β : Type}

/-- The next character, which stays. -/
def peek : Scan (Option Char) := fun s => some (s.head?, s)

/-- The next character, of a class. -/
def one (p : Char → Bool) : Scan Char
  | c :: rest => if p c then some (c, rest) else none
  | [] => none

/-- The next character must be this one. -/
def char (c : Char) : Scan Unit := do
  let _ ← one (· == c)

/-- The text must go on with these characters. -/
def literal : List Char → Scan Unit
  | [] => pure ()
  | c :: rest => do
    char c
    literal rest

/-- The longest front of characters of a class, perhaps empty. -/
def takeWhile (p : Char → Bool) : Scan (List Char) := fun s =>
  some (s.takeWhile p, s.dropWhile p)

/-- The longest front of characters of a class, not empty. -/
def takeSome (p : Char → Bool) : Scan (List Char) := do
  let cs ← takeWhile p
  guard !cs.isEmpty
  return cs

/-- So many characters of a class. -/
def exactly (p : Char → Bool) : Nat → Scan (List Char)
  | 0 => pure []
  | n + 1 => do return (← one p) :: (← exactly p n)

/-- Nothing may be left. -/
def done : Scan Unit := fun s => if s.isEmpty then some ((), s) else none

/-- A part that may be missing. -/
def option (p : Scan α) : Scan (Option α) :=
  (do return some (← p)) <|> pure none

def repeatLoop (p : Scan α) : Nat → Scan (List α)
  | 0 => pure []
  | fuel + 1 => do
    match ← option p with
    | some a => return a :: (← repeatLoop p fuel)
    | none => return []

/-- A part as often as it comes; each time it takes at least one character. -/
def many (p : Scan α) : Scan (List α) := fun s => repeatLoop p s.length s

/-- Parts with separators between them; there may be none at all. -/
def sepBy (p : Scan α) (sep : Scan β) : Scan (List α) := do
  match ← option p with
  | none => return []
  | some a => return a :: (← many (do let _ ← sep; p))

/-- The result of a reader that uses up the whole text. -/
def run? (p : Scan α) (s : List Char) : Option α :=
  match p s with
  | some (a, []) => some a
  | _ => none

end Scan
end WorkerHost.Text
