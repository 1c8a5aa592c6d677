import WorkerHost.Numeric.Binary64
/-!
JSON documents, and what can be wrong with a text that should be one.
-/

namespace WorkerHost.Json

/-- A number: an integer from `-2 ^ 63` up to `2 ^ 64 - 1` is kept exactly, anything else as a
float. -/
inductive Number where
  | int (n : Int)
  | float (x : Binary64)
  deriving DecidableEq

/-- A JSON document. The members of an object stay in the order of the text, repeated ones too. -/
inductive Document where
  | null
  | bool (b : Bool)
  | num (n : Number)
  | str (s : String)
  | arr (items : List Document)
  | obj (members : List (String × Document))

instance : Inhabited Document := ⟨.null⟩

/-- What is wrong with a text. -/
inductive Cause where
  | eofInValue
  | eofInList
  | eofInObject
  | eofInString
  | expectedValue
  | expectedColon
  | expectedListCommaOrEnd
  | expectedObjectCommaOrEnd
  | expectedIdent
  | keyMustBeString
  | trailingComma
  | trailingCharacters
  | invalidNumber
  | numberOutOfRange
  | invalidEscape
  | loneLeadingSurrogate
  | unexpectedEndOfHexEscape
  | controlCharacter
  | invalidUnicode
  | recursionLimit
  /-- JSON, but not of the shape asked for -/
  | wrongShape
  deriving DecidableEq

/-- The kinds of failure: the text ends too early, is no JSON, or has the wrong shape. -/
inductive Category where
  | eof
  | syntactic
  | data
  deriving DecidableEq

def Category.name : Category → String
  | .eof => "eof"
  | .syntactic => "syntax"
  | .data => "data"

namespace Cause

def category : Cause → Category
  | eofInValue | eofInList | eofInObject | eofInString => .eof
  | wrongShape => .data
  | _ => .syntactic

def message : Cause → String
  | eofInValue => "EOF while parsing a value"
  | eofInList => "EOF while parsing a list"
  | eofInObject => "EOF while parsing an object"
  | eofInString => "EOF while parsing a string"
  | expectedValue => "expected value"
  | expectedColon => "expected `:`"
  | expectedListCommaOrEnd => "expected `,` or `]`"
  | expectedObjectCommaOrEnd => "expected `,` or `\x7d`"
  | expectedIdent => "expected ident"
  | keyMustBeString => "key must be a string"
  | trailingComma => "trailing comma"
  | trailingCharacters => "trailing characters"
  | invalidNumber => "invalid number"
  | numberOutOfRange => "number out of range"
  | invalidEscape => "invalid escape"
  | loneLeadingSurrogate => "lone leading surrogate in hex escape"
  | unexpectedEndOfHexEscape => "unexpected end of hex escape"
  | controlCharacter => "control character (\\u0000-\\u001F) found while parsing a string"
  | invalidUnicode => "invalid unicode code point"
  | recursionLimit => "recursion limit exceeded"
  | wrongShape => "wrong shape"

end Cause

/-- A failure of reading, with the number of bytes left when it was found. -/
structure Fault where
  cause : Cause
  left : Nat
  deriving DecidableEq

/-- The line, from 1, and the column of the byte before which so many bytes have been read. The
column counts the bytes since the last newline. -/
def position (text : List UInt8) (read : Nat) : Nat × Nat :=
  (text.take read).foldl
    (fun (line, column) (b : UInt8) => if b == 10 then (line + 1, 0) else (line, column + 1)) (1, 0)

/-- The failure and its place in the text. -/
def Fault.message (f : Fault) (text : List UInt8) : String :=
  let (line, column) := position text (text.length - f.left)
  f.cause.message ++ " at line " ++ toString line ++ " column " ++ toString column

end WorkerHost.Json
