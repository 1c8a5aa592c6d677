import WorkerHost.Json.Document
import WorkerHost.Numeric.DecimalText
import WorkerHost.Toml.Reader
/-!
Settings from variables of the process. The text of a variable is a value in a small notation:
`true`, `false`, numbers, quoted strings, a quoted character, lists in brackets, tables in braces,
and bare words. What does not read as a whole in this notation is a string as it stands.
-/

namespace WorkerHost.Variable

open Text Json

def isSpace (c : Char) : Bool :=
  c == ' ' || c == '\t' || c == '\n' || c == '\r' || c == '\x0c'

def spaces : Scan Unit := do
  let _ ← Scan.takeWhile isSpace

/-- A character that ends a bare word. -/
def isSeparator (c : Char) : Bool :=
  c == ',' || c == '[' || c == ']' || c == '\x7b' || c == '\x7d'

/-- What a bare word means: a number if it reads as one, else itself. A float needs a point. -/
def ofWord (word : List Char) : Document :=
  let float := if word.contains '.' then decimalFloat.run? word else none
  let unsigned := match word with
    | '+' :: ds => digits? ds
    | ds => digits? ds
  match float, unsigned, int64? word with
  | some x, _, _ => .num (.float x)
  | none, some n, _ => if n < 2 ^ 64 then .num (.int n) else .str (String.ofList word)
  | none, none, some n => .num (.int n.toInt)
  | none, none, none => .str (String.ofList word)

/-- The items up to a closing character, with commas between them; one more comma may follow. -/
def itemsUntil {α : Type} (close : Char) (item : Scan α) : Nat → Scan (List α)
  | 0 => failure
  | fuel + 1 =>
    (do Scan.char close; return []) <|> do
      let a ← item
      (do Scan.char ','; return a :: (← itemsUntil close item fuel)) <|>
        (do Scan.char close; return [a])

/-- A sequence between two characters. -/
def enclosed {α : Type} (first close : Char) (item : Scan α) : Scan (List α) := do
  Scan.char first
  fun s => itemsUntil close item (s.length + 1) s

/-- The longest front of a text that takes at most so many bytes. -/
def takeBytes : Nat → List Char → List Char
  | _, [] => []
  | n, c :: rest => if c.utf8Size ≤ n then c :: takeBytes (n - c.utf8Size) rest else []

/-- A string in double quotes. If it has escapes, what precedes the first of them is cut to as many
bytes as it has characters, so that only characters of one byte are sure to stay. -/
def quoted : Scan String := do
  Scan.char '"'
  let front ← Scan.takeWhile fun c => Toml.isPlain c && c != '"' && c != '\\'
  let front := if (← Scan.peek) == some '"' then front else takeBytes front.length front
  return String.ofList (front ++ (← Toml.short '"' true))

/-- A key and a value. -/
def pair (value : Scan Document) : Scan (String × Document) := do
  spaces
  let k ← quoted <|> (do return String.ofList (← Scan.takeSome Toml.isBare))
  spaces
  Scan.char '='
  spaces
  let v ← value
  spaces
  return (k, v)

/-- Sets a key, in place of an earlier value. -/
def setMember (ms : List (String × Document)) (k : String) (v : Document) :
    List (String × Document) :=
  if ms.any (·.1 == k) then ms.map fun m => if m.1 == k then (k, v) else m else ms ++ [(k, v)]

/-- A value whose parts nest less deep than the bound. -/
def value : Nat → Scan Document
  | 0 => failure
  | depth + 1 => do
    spaces
    let v ←
      (do Scan.literal "true".toList; return .bool true) <|>
      (do Scan.literal "false".toList; return .bool false) <|>
      do
        match ← Scan.peek with
        | some '\x7b' => do
          let ms ← enclosed '\x7b' '\x7d' (pair (value depth))
          return .obj (ms.foldl (fun ms (k, v) => setMember ms k v) [])
        | some '[' => return .arr (← enclosed '[' ']' (value depth))
        | some '"' => return .str (← quoted)
        | some '\'' => do
          Scan.char '\''
          let c ← Scan.one fun _ => true
          Scan.char '\''
          return .str (String.singleton c)
        | _ => return ofWord (trim (← Scan.takeWhile fun c => !isSeparator c))
    spaces
    return v

/-- The value of a variable's text. -/
def parse (text : String) : Document :=
  let cs := text.toList
  ((value (cs.length + 1)).run? cs).getD (.str text)

/-- How the names of variables with settings begin, in upper or lower case. -/
def namePrefix : List Char := "TETHER_".toList

/-- The path of the setting that a variable names: what follows the beginning, in lower case, cut at
double underscores. Blanks around the name, before and after the beginning is taken off, say
nothing. -/
def path? (name : String) : Option (List String) := do
  let cs := (trim name.toList).map Char.toLower
  guard ((namePrefix.map Char.toLower).isPrefixOf cs)
  let parts := cut (trim (cs.drop namePrefix.length))
  guard (parts.all (!·.isEmpty))
  return parts.map String.ofList
where
  /-- the pieces between double underscores or points -/
  cut : List Char → List (List Char)
    | '_' :: '_' :: rest => [] :: cut rest
    | '.' :: rest => [] :: cut rest
    | c :: rest =>
      match cut rest with
      | piece :: more => (c :: piece) :: more
      | [] => [[c]]
    | [] => [[]]

end WorkerHost.Variable
