import WorkerHost.Numeric.DecimalText
import WorkerHost.Text.Hex
import WorkerHost.Toml.MomentTable
import WorkerHost.Toml.Table
/-!
TOML read as the document it stands for: tables are objects, a date or time is an object whose one
key says so, and a float that is not finite is null. A text that is no TOML gives nothing.
-/

namespace WorkerHost.Toml

open Text Json

/-! ## Blanks, comments, line ends -/

def isSpace (c : Char) : Bool :=
  c == ' ' || c == '\t'

/-- A character that may stand in comments and strings: no control character but the tab. -/
def isPlain (c : Char) : Bool :=
  c == '\t' || (c.toNat ≥ 32 && c.toNat != 127)

def spaces : Scan Unit := do
  let _ ← Scan.takeWhile isSpace

def newline : Scan Unit :=
  Scan.char '\n' <|> Scan.literal ['\r', '\n']

def comment : Scan Unit := do
  Scan.char '#'
  let _ ← Scan.takeWhile isPlain

/-- Blanks, comments and line ends, as they may surround the items of a list. -/
def gap : Scan Unit := do
  let _ ← Scan.many ((do let _ ← Scan.takeSome isSpace) <|> newline <|> (do comment; newline))

/-- The rest of a line after its statement. -/
def lineEnd : Scan Unit := do
  spaces
  let _ ← Scan.option comment
  newline <|> Scan.done

/-! ## Strings -/

/-- The value of hexadecimal digits. -/
def hexadecimal (ds : List Char) : Nat :=
  ds.foldl (fun n c => n * 16 + (hexValue? c).getD 0) 0

/-- The character with the code that so many hexadecimal digits give. -/
def codePoint (count : Nat) : Scan Char := do
  let n := hexadecimal (← Scan.exactly (fun c => (hexValue? c).isSome) count)
  guard n.isValidChar
  return Char.ofNat n

/-- What stands after a backslash. -/
def escaped : Scan Char := do
  match ← Scan.one fun _ => true with
  | 'b' => return '\x08'
  | 't' => return '\t'
  | 'n' => return '\n'
  | 'f' => return '\x0c'
  | 'r' => return '\r'
  | '"' => return '"'
  | '\\' => return '\\'
  | 'u' => codePoint 4
  | 'U' => codePoint 8
  | _ => failure

/-- The characters of a string on one line, up to its quote. Only some strings know escapes. -/
def shortLoop (quote : Char) (escapes : Bool) : Nat → Scan (List Char)
  | 0 => failure
  | fuel + 1 => do
    let c ← Scan.one fun _ => true
    if c == quote then return []
    else if c == '\\' && escapes then do
      let c ← escaped
      return c :: (← shortLoop quote escapes fuel)
    else do
      guard (isPlain c)
      return c :: (← shortLoop quote escapes fuel)

/-- A string on one line, after its first quote. -/
def short (quote : Char) (escapes : Bool) : Scan (List Char) := fun s =>
  shortLoop quote escapes s.length s

/-- A line end after a backslash, which vanishes with all blank space after it. -/
def joined : Scan Unit := do
  Scan.char '\\'
  spaces
  newline
  let _ ← Scan.many ((do let _ ← Scan.takeSome isSpace) <|> newline)

/-- The characters of a string over several lines. Three quotes end it; up to two quotes more
before them belong to it. -/
def longLoop (quote : Char) (escapes : Bool) : Nat → Scan (List Char)
  | 0 => failure
  | fuel + 1 => do
    let quotes ← Scan.takeWhile (· == quote)
    if quotes.length ≥ 3 then do
      guard (quotes.length ≤ 5)
      return quotes.drop 3
    else do
      let piece ←
        (if escapes then (do joined; return []) <|> (do Scan.char '\\'; return [← escaped])
          else failure) <|>
        (do newline; return ['\n']) <|>
        Scan.takeSome (fun c => isPlain c && c != quote && !(escapes && c == '\\'))
      return quotes ++ piece ++ (← longLoop quote escapes fuel)

/-- A string over several lines, after its first quotes; a line end right after them is dropped. -/
def long (quote : Char) (escapes : Bool) : Scan (List Char) := do
  let _ ← Scan.option newline
  fun s => longLoop quote escapes (s.length + 1) s

def string : Scan String := do
  let cs ←
    (do Scan.literal ['"', '"', '"']; long '"' true) <|>
    (do Scan.char '"'; short '"' true) <|>
    (do Scan.literal ['\'', '\'', '\'']; long '\'' false) <|>
    (do Scan.char '\''; short '\'' false)
  return String.ofList cs

/-! ## Numbers -/

/-- Digits, between any two of which one underscore may stand. -/
def digitRun (p : Char → Bool) : Scan (List Char) := do
  let d ← Scan.one p
  let ds ← Scan.many (do let _ ← Scan.option (Scan.char '_'); Scan.one p)
  return d :: ds

def sign : Scan Bool := do
  let c ← Scan.option (Scan.one fun c => c == '+' || c == '-')
  return c == some '-'

/-- The digits of an integer in decimal; only zero starts with a zero. -/
def wholeDigits : Scan (List Char) := do
  if (← Scan.peek) == some '0' then
    return [← Scan.one (· == '0')]
  else digitRun Char.isDigit

/-- An integer that 64 bits with sign can hold. -/
def fitting (n : Int) : Scan Document := do
  guard (-2 ^ 63 ≤ n ∧ n < 2 ^ 63)
  return .num (.int n)

/-- The digits after a mark such as `0x`, in a base up to sixteen. -/
def inBase (mark : Char) (base : Nat) : Scan Document := do
  Scan.literal ['0', mark]
  let ds ← digitRun fun c => (hexValue? c).any (· < base)
  fitting (ds.foldl (fun n c => n * base + (hexValue? c).getD 0) 0)

def integer : Scan Document :=
  inBase 'x' 16 <|> inBase 'o' 8 <|> inBase 'b' 2 <|> do
    let negative ← sign
    let n : Int := decimal (← wholeDigits)
    fitting (if negative then -n else n)

def exponentPart : Scan Int := do
  let _ ← Scan.one fun c => c == 'e' || c == 'E'
  let negative ← sign
  let e : Int := decimal (← digitRun Char.isDigit)
  return if negative then -e else e

/-- A float with a fraction or an exponent. One too large is refused, one too far below zero is
minus infinity, which has no number. -/
def float : Scan Document := do
  let negative ← sign
  let whole ← wholeDigits
  let fraction ← Scan.option (do Scan.char '.'; digitRun Char.isDigit)
  let e ← Scan.option exponentPart
  guard (fraction.isSome || e.isSome)
  let x := Binary64.ofDigits negative whole (fraction.getD []) (e.getD 0)
  if x.isFinite then return .num (.float x)
  else do
    guard negative
    return .null

/-- The infinities and what is not a number have no number. -/
def nonFinite : Scan Document := do
  let _ ← sign
  Scan.literal ['i', 'n', 'f'] <|> Scan.literal ['n', 'a', 'n']
  return .null

/-! ## Keys and values -/

def isBare (c : Char) : Bool :=
  c.isAlphanum || c == '-' || c == '_'

/-- One piece of a key. -/
def simpleKey : Scan String := do
  let cs ←
    (do Scan.char '"'; short '"' true) <|> (do Scan.char '\''; short '\'' false) <|>
    Scan.takeSome isBare
  return String.ofList cs

/-- How deep lists and tables may nest, and how many pieces a key may have. -/
def maxDepth : Nat := 79

/-- A key: pieces with points between them. -/
def key : Scan (List String) := do
  let ks ← Scan.sepBy (do spaces; let k ← simpleKey; spaces; return k) (Scan.char '.')
  guard (!ks.isEmpty && ks.length ≤ maxDepth)
  return ks

/-- A key, an equals sign and a value. -/
def pair (value : Scan Document) : Scan (List String × String × Document) := do
  let (path, k) ← (Draft.splitLast (← key) : Option (List String × String))
  Scan.char '='
  spaces
  return (path, k, ← value)

def list (value : Scan Document) : Scan Document := do
  Scan.char '['
  let items ← Scan.sepBy (do gap; let d ← value; gap; return d) (Scan.char ',')
  if !items.isEmpty then
    let _ ← Scan.option (Scan.char ',')
  gap
  Scan.char ']'
  return .arr items

/-- A table on one line. -/
def inlineTable (value : Scan Document) : Scan Document := do
  Scan.char '\x7b'
  let pairs ← Scan.sepBy (do let p ← pair value; spaces; return p) (Scan.char ',')
  spaces
  Scan.char '\x7d'
  let t ← (pairs.foldlM (fun t (path, k, d) => Table.define path k d t) .empty : Option Table)
  return t.toDocument

/-- A value without parts. -/
def scalar : Scan Document :=
  (do return .str (← string)) <|>
  (do return momentTable (← moment)) <|>
  float <|> integer <|> nonFinite <|>
  (do Scan.literal "true".toList; return .bool true) <|>
  (do Scan.literal "false".toList; return .bool false)

/-- A value whose parts nest at most so deep. -/
def value : Nat → Scan Document
  | 0 => scalar
  | depth + 1 => list (value depth) <|> inlineTable (value depth) <|> scalar

/-! ## Lines -/

/-- One statement: an empty line, a comment, a header or a pair. -/
def statement (d : Draft) : Scan Draft := do
  spaces
  (do newline; return d) <|>
  (do comment; newline <|> Scan.done; return d) <|>
  (do
    Scan.literal ['[', '[']
    let path ← key
    Scan.literal [']', ']']
    lineEnd
    (d.openTable true path : Option Draft)) <|>
  (do
    Scan.char '['
    let path ← key
    Scan.char ']'
    lineEnd
    (d.openTable false path : Option Draft)) <|>
  (do
    let (path, k, v) ← pair (value maxDepth)
    lineEnd
    (d.define path k v : Option Draft))

def statements : Nat → Draft → Scan Draft
  | 0, d => return d
  | fuel + 1, d => (do spaces; Scan.done; return d) <|> (do statements fuel (← statement d))

/-- The document that a TOML text stands for. A mark of the byte order may precede it. -/
def read (text : List Char) : Option Document :=
  let text := if text.head? == some '\uFEFF' then text.tail else text
  do
    let d ← (statements (text.length + 1) .start).run? text
    return (← d.close).toDocument

end WorkerHost.Toml
