/-!
UTF-8 over byte lists. `next` reads one character off the front and tells a malformed sequence, with
the length of its longest well-formed beginning, from one that merely ends too early; strict and
lossy decoding and the byte-wise sinks are built on it.
-/

namespace WorkerHost.Text.Utf8

/-- What stands at the front of some bytes. -/
inductive Front where
  /-- a character and the bytes after it -/
  | char (c : Char) (rest : List UInt8)
  /-- a malformed sequence and the bytes after it; the character after it is not touched -/
  | malformed (rest : List UInt8)
  /-- a beginning of a character that more bytes could complete -/
  | incomplete
  /-- no bytes at all -/
  | nothing

/-- A byte that continues a character. -/
def isContinuation (b : UInt8) : Bool :=
  0x80 ≤ b && b ≤ 0xBF

/-- The bounds of the second byte after the first byte of a longer character, and how many bytes
follow the first; `none` if no character starts so. -/
def secondBounds (b : UInt8) : Option (Nat × UInt8 × UInt8) :=
  if 0xC2 ≤ b && b ≤ 0xDF then some (1, 0x80, 0xBF)
  else if b == 0xE0 then some (2, 0xA0, 0xBF)
  else if b == 0xED then some (2, 0x80, 0x9F)
  else if 0xE1 ≤ b && b ≤ 0xEF then some (2, 0x80, 0xBF)
  else if b == 0xF0 then some (3, 0x90, 0xBF)
  else if 0xF1 ≤ b && b ≤ 0xF3 then some (3, 0x80, 0xBF)
  else if b == 0xF4 then some (3, 0x80, 0x8F)
  else none

/-- The payload of a continuation byte. -/
def payload (b : UInt8) : Nat :=
  b.toNat % 64

/-- The first character, malformed sequence or unfinished character. -/
def next : List UInt8 → Front
  | [] => .nothing
  | b :: rest =>
    if b < 0x80 then .char (Char.ofNat b.toNat) rest
    else
      match secondBounds b with
      | none => .malformed rest
      | some (more, lo, hi) =>
        match rest with
        | [] => .incomplete
        | b₂ :: rest₂ =>
          if !(lo ≤ b₂ && b₂ ≤ hi) then .malformed rest
          else if more == 1 then .char (Char.ofNat (b.toNat % 32 * 64 + payload b₂)) rest₂
          else
            match rest₂ with
            | [] => .incomplete
            | b₃ :: rest₃ =>
              if !isContinuation b₃ then .malformed rest₂
              else if more == 2 then
                .char (Char.ofNat ((b.toNat % 16 * 64 + payload b₂) * 64 + payload b₃)) rest₃
              else
                match rest₃ with
                | [] => .incomplete
                | b₄ :: rest₄ =>
                  if !isContinuation b₄ then .malformed rest₃
                  else
                    .char (Char.ofNat
                      (((b.toNat % 8 * 64 + payload b₂) * 64 + payload b₃) * 64 + payload b₄)) rest₄

/-- The replacement character, which lossy decoding puts for each malformed sequence. -/
def replacement : Char := '\uFFFD'

/-- Reads as many characters as the fuel allows; `none` at a malformed or unfinished one. -/
def decodeLoop : Nat → List UInt8 → List Char → Option (List Char)
  | 0, _, acc => some acc.reverse
  | fuel + 1, bytes, acc =>
    match next bytes with
    | .nothing => some acc.reverse
    | .char c rest => decodeLoop fuel rest (c :: acc)
    | .malformed _ | .incomplete => none

/-- The text that the bytes encode, or `none` if they are not UTF-8. -/
def decode (bytes : List UInt8) : Option (List Char) :=
  decodeLoop bytes.length bytes []

/-- As `decodeLoop`, but a malformed or unfinished sequence becomes a replacement character. -/
def decodeLossyLoop : Nat → List UInt8 → List Char → List Char
  | 0, _, acc => acc.reverse
  | fuel + 1, bytes, acc =>
    match next bytes with
    | .nothing => acc.reverse
    | .char c rest => decodeLossyLoop fuel rest (c :: acc)
    | .malformed rest => decodeLossyLoop fuel rest (replacement :: acc)
    | .incomplete => (replacement :: acc).reverse

/-- The text of the bytes with one replacement character for each malformed sequence. -/
def decodeLossy (bytes : List UInt8) : List Char :=
  decodeLossyLoop bytes.length bytes []

/-- The bytes of a text. -/
def encode (s : List Char) : List UInt8 :=
  s.flatMap String.utf8EncodeChar

/-- The bytes of a string. -/
def ofString (s : String) : List UInt8 :=
  s.toUTF8.data.toList

/-- The string that the bytes encode, or `none` if they are not UTF-8. -/
def toString? (bytes : List UInt8) : Option String :=
  String.fromUTF8? ⟨bytes.toArray⟩

end WorkerHost.Text.Utf8
