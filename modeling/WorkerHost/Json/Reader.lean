import WorkerHost.Json.Document
import WorkerHost.Text.Utf8
/-!
Reading JSON text. A reader takes the bytes that remain and gives what it read and the bytes after
it, or the first fault. Containers may nest 127 deep.

The readers of the parts (blanks, literals, numbers, strings, sequences, members) are shared by the
reader of documents here and by the typed readers of `WorkerHost.Json.Decoder`.
-/

namespace WorkerHost.Json

/-- Reads from the front of the bytes that remain. -/
abbrev Reader (α : Type) := StateT (List UInt8) (Except Fault) α

namespace Reader

/-- The ASCII code of a character. -/
def byte (c : Char) : UInt8 :=
  c.toNat.toUInt8

/-- Fails at the place reached. -/
def failHere {α : Type} (cause : Cause) : Reader α := fun s =>
  .error ⟨cause, s.length⟩

/-- Fails at the byte that comes next, or at the end of the text. -/
def failNext {α : Type} (cause : Cause) : Reader α := fun s =>
  .error ⟨cause, s.length - 1⟩

/-- The text is not of the shape asked for. -/
def wrongShape {α : Type} : Reader α :=
  failHere .wrongShape

/-- What the text was read as, if it was of the shape asked for. -/
def shaped {α : Type} : Option α → Reader α
  | some a => pure a
  | none => wrongShape

/-- The next byte, which stays. -/
def peek : Reader (Option UInt8) := fun s => .ok (s.head?, s)

/-- Drops the next byte. -/
def skip : Reader Unit := fun s => .ok ((), s.tail)

/-- Takes the next byte. -/
def take : Reader (Option UInt8) := fun s => .ok (s.head?, s.tail)

/-- Blanks between tokens. -/
def isBlank (b : UInt8) : Bool :=
  b == 32 || b == 10 || b == 9 || b == 13

def isDigit (b : UInt8) : Bool :=
  48 ≤ b && b ≤ 57

/-- Drops blanks and shows the byte after them. -/
def peekToken : Reader (Option UInt8) := fun s =>
  let s := s.dropWhile isBlank
  .ok (s.head?, s)

/-- Takes the rest of a literal. -/
def literal : List Char → Reader Unit
  | [] => pure ()
  | c :: rest => do
    match ← take with
    | none => failHere .eofInValue
    | some b => if b == byte c then literal rest else failHere .expectedIdent

/-! ## Numbers -/

/-- The digits that come next. -/
def digits : Reader (List Nat) := fun s =>
  .ok ((s.takeWhile isDigit).map (fun b => b.toNat - 48), s.dropWhile isDigit)

/-- A significand of at most 64 bits under construction. Once a digit does not fit, that digit and
all after it are only counted. -/
structure Significand where
  value : Nat
  kept : Nat
  dropped : Nat

/-- Takes one more digit. -/
def Significand.push (m : Significand) (d : Nat) : Significand :=
  if m.dropped == 0 && m.value * 10 + d < 2 ^ 64 then ⟨m.value * 10 + d, m.kept + 1, 0⟩
  else ⟨m.value, m.kept, m.dropped + 1⟩

/-- Takes digits on top of a value. -/
def Significand.ofDigits (start : Nat) (ds : List Nat) : Significand :=
  ds.foldl Significand.push ⟨start, 0, 0⟩

/-- The float `± value * 10 ^ exponent`, by one multiplication or division with a power of ten at a
time, each of them rounded; none if it grows too large. -/
def scale (negative : Bool) : Nat → Binary64 → Int → Option Binary64
  | 0, x, _ => some (if negative then x.neg else x)
  | fuel + 1, x, exponent =>
    if exponent.natAbs ≤ 308 then
      let power := Binary64.ofNat (10 ^ exponent.natAbs)
      if exponent ≥ 0 then
        let y := x.mul power
        if y.isFinite then some (if negative then y.neg else y) else none
      else
        let y := x.div power
        some (if negative then y.neg else y)
    else if x.isZero then some (if negative then x.neg else x)
    else if exponent ≥ 0 then none
    else scale negative fuel (x.div (Binary64.ofNat (10 ^ 308))) (exponent + 308)

/-- The float of a significand and an exponent. A quotient that stays above zero for so many steps
does not exist, so the steps suffice. -/
def floatOf (negative : Bool) (value : Nat) (exponent : Int) : Reader Number :=
  match scale negative 16 (Binary64.ofNat value) exponent with
  | some x => pure (.float x)
  | none => failHere .numberOutOfRange

/-- The greatest exponent that is read as such. -/
def maxExponent : Nat := 2 ^ 31 - 1

/-- An integer kept within 32 bits. -/
def clampExponent (e : Int) : Int :=
  max (-2 ^ 31) (min e (2 ^ 31 - 1))

/-- The digits of an exponent, or the bytes after the digit that makes it too large. -/
def exponentDigits (e : Nat) : List UInt8 → Except (List UInt8) (Nat × List UInt8)
  | [] => .ok (e, [])
  | b :: rest =>
    if isDigit b then
      let e := e * 10 + (b.toNat - 48)
      if e > maxExponent then .error rest else exponentDigits e rest
    else .ok (e, b :: rest)

/-- The exponent of a number whose value is not changed by it if it is too large: zero stays zero,
and anything vanishes under a very negative exponent. -/
def exponentValue (negative : Bool) (value : Nat) (start : Int) (positive : Bool) :
    Reader Number := fun s =>
  match exponentDigits 0 s with
  | .ok (e, rest) =>
    floatOf negative value (clampExponent (if positive then start + e else start - e)) rest
  | .error rest =>
    if value != 0 && positive then .error ⟨.numberOutOfRange, rest.length⟩
    else .ok (.float (Binary64.zero negative), rest.dropWhile isDigit)

/-- The sign of an exponent, if there is one: whether the exponent is counted upwards. -/
def exponentSign : Reader Bool := do
  match ← peek with
  | some b =>
    if b == byte '+' then do skip; pure true
    else if b == byte '-' then do skip; pure false
    else pure true
  | none => pure true

/-- The part of a number after the sign of its exponent. -/
def exponentNumber (negative : Bool) (value : Nat) (start : Int) (positive : Bool) :
    Reader Number := do
  match ← peek with
  | none => failHere .eofInValue
  | some b =>
    if isDigit b then exponentValue negative value start positive
    else do skip; failHere .invalidNumber

/-- The part of a number from its exponent sign on. -/
def exponentPart (negative : Bool) (value : Nat) (start : Int) : Reader Number := do
  skip
  exponentNumber negative value start (← exponentSign)

/-- The part of a number that follows its digits. -/
def afterDigits (negative : Bool) (value : Nat) (exponent : Int) : Reader Number := do
  match ← peek with
  | some b =>
    if b == byte 'e' || b == byte 'E' then exponentPart negative value exponent
    else floatOf negative value exponent
  | none => floatOf negative value exponent

/-- The part of a number from its point on. -/
def fractionPart (negative : Bool) (value : Nat) (start : Int) : Reader Number := do
  skip
  let ds ← digits
  if ds.isEmpty then
    match ← peek with
    | some _ => failNext .invalidNumber
    | none => failNext .eofInValue
  else
    let m := Significand.ofDigits value ds
    afterDigits negative m.value (start - m.kept)

/-- The number whose integer part has a value and, beyond it, uncounted digits. -/
def afterInteger (negative : Bool) (m : Significand) : Reader Number := do
  match ← peek with
  | some b =>
    if b == byte '.' then fractionPart negative m.value m.dropped
    else if b == byte 'e' || b == byte 'E' then exponentPart negative m.value m.dropped
    else whole
  | none => whole
where
  /-- an integer without fraction and exponent -/
  whole : Reader Number :=
    if m.dropped > 0 then floatOf negative m.value m.dropped
    else if !negative then pure (.int m.value)
    else if m.value == 0 || m.value > 2 ^ 63 then
      pure (.float (Binary64.ofRatio true m.value 1))
    else pure (.int (-m.value))

/-- A number after its sign. -/
def number (negative : Bool) : Reader Number := do
  match ← peek with
  | none => failHere .eofInValue
  | some b =>
    if b == byte '0' then do
      skip
      match ← peek with
      | some d => if isDigit d then failNext .invalidNumber else afterInteger negative ⟨0, 1, 0⟩
      | none => afterInteger negative ⟨0, 1, 0⟩
    else if isDigit b then do
      let ds ← digits
      afterInteger negative (Significand.ofDigits 0 ds)
    else do
      skip
      failHere .invalidNumber

/-! ## Strings -/

/-- The value of a hexadecimal digit. -/
def hexDigit? (b : UInt8) : Option Nat :=
  if isDigit b then some (b.toNat - 48)
  else if 97 ≤ b && b ≤ 102 then some (b.toNat - 87)
  else if 65 ≤ b && b ≤ 70 then some (b.toNat - 55)
  else none

/-- Four hexadecimal digits. -/
def hexEscape : Reader Nat := fun s =>
  match s with
  | a :: b :: c :: d :: rest =>
    match hexDigit? a, hexDigit? b, hexDigit? c, hexDigit? d with
    | some a, some b, some c, some d => .ok (((a * 16 + b) * 16 + c) * 16 + d, rest)
    | _, _, _, _ => .error ⟨.invalidEscape, rest.length⟩
  | _ => .error ⟨.eofInString, 0⟩

/-- The bytes of a character. -/
def bytesOf (n : Nat) : List UInt8 :=
  String.utf8EncodeChar (Char.ofNat n)

/-- Takes a byte that has to be a given one. -/
def surrogateMark (c : Char) : Reader Unit := do
  match ← take with
  | none => failHere .eofInString
  | some b => if b == byte c then pure () else failHere .unexpectedEndOfHexEscape

/-- The character of a `\u` escape; one beyond the basic plane is written as two surrogates. -/
def unicodeEscape : Reader (List UInt8) := do
  let n ← hexEscape
  if 0xDC00 ≤ n && n ≤ 0xDFFF then failHere .loneLeadingSurrogate
  else if n < 0xD800 || n > 0xDBFF then pure (bytesOf n)
  else do
    surrogateMark '\\'
    surrogateMark 'u'
    let m ← hexEscape
    if m < 0xDC00 || m > 0xDFFF then failHere .loneLeadingSurrogate
    else pure (bytesOf ((n - 0xD800) * 0x400 + (m - 0xDC00) + 0x10000))

/-- What follows a backslash. -/
def escape : Reader (List UInt8) := do
  match ← take with
  | none => failHere .eofInString
  | some b =>
    if b == byte '"' || b == byte '\\' || b == byte '/' then pure [b]
    else if b == byte 'b' then pure [8]
    else if b == byte 'f' then pure [12]
    else if b == byte 'n' then pure [10]
    else if b == byte 'r' then pure [13]
    else if b == byte 't' then pure [9]
    else if b == byte 'u' then unicodeEscape
    else failHere .invalidEscape

/-- An escape whose meaning does not matter; only the form of its digits is looked at. -/
def ignoredEscape : Reader (List UInt8) := do
  match ← take with
  | none => failHere .eofInString
  | some b =>
    if b == byte 'u' then do let _ ← hexEscape; pure []
    else if "\"\\/bfnrt".toList.any (fun c => b == byte c) then pure []
    else failHere .invalidEscape

/-- The bytes of a string up to its closing quote, in reverse. -/
def stringLoop (escape : Reader (List UInt8)) : Nat → List UInt8 → Reader (List UInt8)
  | 0, _ => failHere .eofInString
  | fuel + 1, acc => do
    match ← take with
    | none => failHere .eofInString
    | some b =>
      if b == byte '"' then pure acc
      else if b == byte '\\' then do
        let bs ← escape
        stringLoop escape fuel (bs.reverse ++ acc)
      else if b < 32 then failHere .controlCharacter
      else stringLoop escape fuel (b :: acc)

/-- A string after its opening quote. -/
def string : Reader String := fun s => do
  let (bytes, rest) ← stringLoop escape (s.length + 1) [] s
  match Text.Utf8.toString? bytes.reverse with
  | some text => .ok (text, rest)
  | none => .error ⟨.invalidUnicode, rest.length⟩

/-- Skips a string after its opening quote. -/
def ignoredString : Reader Unit := fun s => do
  let (_, rest) ← stringLoop ignoredEscape (s.length + 1) [] s
  .ok ((), rest)

/-! ## Containers -/

/-- Whether a list has another item. A comma stands before every item but the first. -/
def hasItem (first : Bool) : Reader Bool := do
  match ← peekToken with
  | none => failNext .eofInList
  | some b =>
    if b == byte ']' then pure false
    else if first then pure true
    else if b == byte ',' then do
      skip
      match ← peekToken with
      | none => failNext .eofInValue
      | some c => if c == byte ']' then failNext .trailingComma else pure true
    else failNext .expectedListCommaOrEnd

/-- Whether an object has another member, whose key then comes next. -/
def hasMember (first : Bool) : Reader Bool := do
  match ← peekToken with
  | none => failNext .eofInObject
  | some b =>
    if b == byte '\x7d' then pure false
    else if first then quoted
    else if b == byte ',' then do
      skip
      match ← peekToken with
      | none => failNext .eofInValue
      | some c => if c == byte '\x7d' then failNext .trailingComma else quoted
    else failNext .expectedObjectCommaOrEnd
where
  /-- a key is a string -/
  quoted : Reader Bool := do
    match ← peek with
    | some b => if b == byte '"' then pure true else failNext .keyMustBeString
    | none => failNext .keyMustBeString

/-- The colon between a key and its value. -/
def colon : Reader Unit := do
  match ← peekToken with
  | none => failNext .eofInObject
  | some b => if b == byte ':' then skip else failNext .expectedColon

/-- The end of a list that should hold no more. -/
def endList : Reader Unit := do
  match ← peekToken with
  | none => failNext .eofInList
  | some b =>
    if b == byte ']' then skip
    else if b == byte ',' then do
      skip
      match ← peekToken with
      | some c => failNext (if c == byte ']' then .trailingComma else .trailingCharacters)
      | none => failNext .trailingCharacters
    else failNext .trailingCharacters

/-- Goes through the members of an object, giving each key to a step that reads its value. -/
def foldMembers {σ : Type} (step : σ → String → Reader σ) : Nat → Bool → σ → Reader σ
  | 0, _, _ => failHere .eofInObject
  | fuel + 1, first, acc => do
    if ← hasMember first then
      skip
      let key ← string
      let acc ← step acc key
      foldMembers step fuel false acc
    else
      skip
      pure acc

/-- Goes through the members of an object after its opening brace. -/
def members {σ : Type} (init : σ) (step : σ → String → Reader σ) : Reader σ := fun s =>
  foldMembers step (s.length + 1) true init s

/-- The items of a list up to its end, in reverse. -/
def itemsLoop {α : Type} (item : Reader α) : Nat → Bool → List α → Reader (List α)
  | 0, _, _ => failHere .eofInList
  | fuel + 1, first, acc => do
    if ← hasItem first then
      let a ← item
      itemsLoop item fuel false (a :: acc)
    else
      skip
      pure acc

/-- The items of a list after its opening bracket. -/
def items {α : Type} (item : Reader α) : Reader (List α) := fun s => do
  let (acc, rest) ← itemsLoop item (s.length + 1) true [] s
  .ok (acc.reverse, rest)

/-! ## Documents -/

/-- A document in which containers nest at most so deep. -/
def document (depth : Nat) : Reader Document := do
  match ← peekToken with
  | none => failNext .eofInValue
  | some b =>
    if b == byte 'n' then do skip; literal ['u', 'l', 'l']; pure .null
    else if b == byte 't' then do skip; literal ['r', 'u', 'e']; pure (.bool true)
    else if b == byte 'f' then do skip; literal ['a', 'l', 's', 'e']; pure (.bool false)
    else if b == byte '-' then do skip; return .num (← number true)
    else if isDigit b then return .num (← number false)
    else if b == byte '"' then do skip; return .str (← string)
    else if b == byte '[' then
      match depth with
      | 0 => failNext .recursionLimit
      | depth + 1 => do skip; return .arr (← items (document depth))
    else if b == byte '\x7b' then
      match depth with
      | 0 => failNext .recursionLimit
      | depth + 1 => do
        skip
        let acc ← members [] fun acc key => do
          colon
          return (key, ← document depth) :: acc
        return .obj acc.reverse
    else failNext .expectedValue

/-- How deep containers may nest. -/
def maxDepth : Nat := 127

/-- Nothing but blanks may follow. -/
def finish : Reader Unit := do
  match ← peekToken with
  | none => pure ()
  | some _ => failNext .trailingCharacters

/-- Reads all of a text. -/
def readAll {α : Type} (r : Reader α) (text : List UInt8) : Except Fault α :=
  (do let a ← r; finish; return a : Reader α).run' text

end Reader

/-- The document of a text. -/
def Document.read (text : List UInt8) : Except Fault Document :=
  Reader.readAll (Reader.document Reader.maxDepth) text

end WorkerHost.Json
