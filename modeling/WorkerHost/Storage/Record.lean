import WorkerHost.Wire.Decode
import WorkerHost.Wire.Encode
/-!
The record that a stored value becomes. JSON alone cannot tell a byte buffer from a list of numbers,
so every record says what kind of value it holds.
-/

namespace WorkerHost

open Json

/-- A value at rest. -/
inductive StoredValue where
  | null
  /-- a value of any other kind, as a wire form -/
  | generic (wire : Wire)
  | bytearray (bs : List UInt8)
  | memoryview (bs : List UInt8)
  deriving DecidableEq

namespace StoredValue

/-- The record of a value. -/
def ofValue (h : Heap) : Value → Except CodecError StoredValue
  | .null => .ok .null
  | .bytes bs => .ok (.bytearray bs)
  | .view bs => .ok (.memoryview bs)
  | v => (Wire.encode h v).map .generic

/-- The value of a record, with fresh objects. -/
def toValue (h : Heap) : StoredValue → Except CodecError (Value × Heap)
  | .null => .ok (.null, h)
  | .bytearray bs => .ok (.bytes bs, h)
  | .memoryview bs => .ok (.view bs, h)
  | .generic wire => Wire.decode h wire

/-- What kind of value the record says it holds. -/
def kind : StoredValue → String
  | .null => "null"
  | .generic _ => "generic"
  | .bytearray _ => "bytearray"
  | .memoryview _ => "memoryview"

def document : StoredValue → Document
  | .null => taggedDocument "kind" "null" "value" none
  | .generic wire => taggedDocument "kind" "generic" "value" (some wire.document)
  | .bytearray bs => taggedDocument "kind" "bytearray" "value" (some (bytesDocument bs))
  | .memoryview bs => taggedDocument "kind" "memoryview" "value" (some (bytesDocument bs))

/-- The alternatives of a record by their kinds. -/
def variants : Decoder.Variants StoredValue :=
  [("null", .alone .null),
    ("generic", .with Wire.decoder .generic),
    ("bytearray", .with (.list .uint8) .bytearray),
    ("memoryview", .with (.list .uint8) .memoryview)]

def decoder : Decoder StoredValue :=
  .tagged "kind" "value" variants

/-- The JSON text of a record, as bytes. -/
def write (s : StoredValue) : List UInt8 :=
  s.document.write

/-- The record of a JSON text. -/
def read (text : List UInt8) : Except CodecError StoredValue :=
  (decoder.readAll text).mapError .json

end StoredValue
end WorkerHost
