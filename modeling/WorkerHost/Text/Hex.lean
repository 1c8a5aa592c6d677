import WorkerHost.Numeric.Binary64
/-!
Bytes as pairs of hexadecimal digits, the high half of each byte first.
-/

namespace WorkerHost.Text

/-- A lower-case hexadecimal digit. -/
def hexDigit (n : Nat) : Char :=
  Char.ofNat (if n < 10 then 48 + n else 87 + n)

/-- The value of a hexadecimal digit, of either case. -/
def hexValue? (c : Char) : Option Nat :=
  if c.isDigit then some (c.toNat - 48)
  else if 'a' ≤ c && c ≤ 'f' then some (c.toNat - 87)
  else if 'A' ≤ c && c ≤ 'F' then some (c.toNat - 55)
  else none

/-- So many digits of a number, the last ones. -/
def hexDigits (count n : Nat) : List Char :=
  (List.range count).reverse.map fun i => hexDigit (n / 16 ^ i % 16)

/-- The digits of bytes. -/
def hexOfBytes (bs : List UInt8) : String :=
  String.ofList (bs.flatMap fun b => hexDigits 2 b.toNat)

/-- The bytes of pairs of digits; a pair that is none ends the bytes. -/
def bytesOfHexChars : List Char → List UInt8
  | a :: b :: rest =>
    match hexValue? a, hexValue? b with
    | some x, some y => (x * 16 + y).toUInt8 :: bytesOfHexChars rest
    | _, _ => []
  | _ => []

def bytesOfHex (s : String) : List UInt8 :=
  bytesOfHexChars s.toList

end WorkerHost.Text

namespace WorkerHost.Binary64

/-- The bits as sixteen digits; all that are not a number are the same. -/
def hex (x : Binary64) : String :=
  if x.isNaN then "nan" else String.ofList (Text.hexDigits 16 x.bits.toNat)

/-- The float of sixteen digits or of `nan`. -/
def ofHex (s : String) : Binary64 :=
  if s == "nan" then nan
  else ⟨(Text.bytesOfHex s).foldl (fun n b => n * 256 + b.toUInt64) 0⟩

end WorkerHost.Binary64
