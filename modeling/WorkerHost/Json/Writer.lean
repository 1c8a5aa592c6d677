import WorkerHost.Json.Document
import WorkerHost.Numeric.FloatText
import WorkerHost.Text.Hex
import WorkerHost.Text.Utf8
/-!
Writing JSON text: compact, members in the order of the document, and of all characters only the
quote, the backslash and the controls below U+0020 escaped.
-/

namespace WorkerHost.Json

/-- The written form of one byte of a string. -/
def escapeByte (b : UInt8) : List UInt8 :=
  if b == 34 then [92, 34]
  else if b == 92 then [92, 92]
  else if b == 8 then [92, 98]
  else if b == 9 then [92, 116]
  else if b == 10 then [92, 110]
  else if b == 12 then [92, 102]
  else if b == 13 then [92, 114]
  else if b < 32 then 92 :: 117 :: Text.Utf8.encode (Text.hexDigits 4 b.toNat)
  else [b]

/-- A string between quotes. -/
def quote (s : String) : List UInt8 :=
  34 :: (Text.Utf8.ofString s).flatMap escapeByte ++ [34]

/-- The text of a number; JSON knows finite numbers only. -/
def Number.write : Number → List UInt8
  | .int n => Text.Utf8.ofString (toString n)
  | .float x => Text.Utf8.ofString (FloatLayout.json.finite x)

mutual

/-- The bytes of a document. -/
def Document.write : Document → List UInt8
  | .null => Text.Utf8.ofString "null"
  | .bool true => Text.Utf8.ofString "true"
  | .bool false => Text.Utf8.ofString "false"
  | .num n => n.write
  | .str s => quote s
  | .arr items => 91 :: writeItems true items
  | .obj members => 123 :: writeMembers true members

/-- The items of a list and its closing bracket. -/
def writeItems (first : Bool) : List Document → List UInt8
  | [] => [93]
  | d :: rest => (if first then [] else [44]) ++ d.write ++ writeItems false rest

/-- The members of an object and its closing brace. -/
def writeMembers (first : Bool) : List (String × Document) → List UInt8
  | [] => [125]
  | (k, d) :: rest =>
    (if first then [] else [44]) ++ quote k ++ 58 :: d.write ++ writeMembers false rest

end

/-- The text of a document. -/
def Document.text (d : Document) : String :=
  (Text.Utf8.toString? d.write).getD ""

/-- A character of a JSON text in ASCII only: one beyond ASCII is escaped, as a pair of escapes if
four digits do not hold its number. -/
def asciiChar (c : Char) : List Char :=
  let n := c.toNat
  let unit (n : Nat) : List Char := '\\' :: 'u' :: Text.hexDigits 4 n
  if n < 127 then [c]
  else if n < 0x10000 then unit n
  else unit (0xD800 + (n - 0x10000) / 0x400) ++ unit (0xDC00 + (n - 0x10000) % 0x400)

/-- The text of a document in ASCII only. -/
def Document.asciiText (d : Document) : String :=
  String.ofList (d.text.toList.flatMap asciiChar)

end WorkerHost.Json
