import WorkerHost.Json.Decoder
import WorkerHost.Json.Writer
import WorkerHost.Value.Basic
/-!
The wire form of a value graph: a flat table of objects, whose entries refer to each other by their
position in it, and a root.
-/

namespace WorkerHost

/-- One encoded value. Compound values are references into the object table. -/
inductive Slot where
  | null
  | bool (b : Bool)
  | int (n : Int64)
  | float (x : Binary64)
  | str (s : String)
  | bytes (bs : List UInt8)
  | view (bs : List UInt8)
  | handle (h : HandleId)
  | ref (id : UInt32)
  deriving DecidableEq, Inhabited

/-- One entry of the object table. The keys of a map may repeat in a table that no encoder wrote. -/
inductive WireObject where
  | list (slots : List Slot)
  | map (entries : List (String × Slot))
  deriving DecidableEq

namespace WireObject

/-- The slots of an entry, in their order. -/
def slots : WireObject → List Slot
  | .list slots => slots
  | .map entries => entries.map (·.2)

end WireObject

/-- The wire form of a value graph. -/
structure Wire where
  root : Slot
  objects : List WireObject
  deriving DecidableEq

namespace Wire

/-- The wire form of null. -/
def null : Wire := ⟨.null, []⟩

instance : Inhabited Wire := ⟨null⟩

end Wire

namespace Slot

/-- Equality in which floats compare as numbers, so that a NaN differs from itself. -/
def same : Slot → Slot → Bool
  | .float x, .float y => x.numEq y
  | a, b => a == b

end Slot

namespace Wire

/-- Equality in which floats compare as numbers. -/
def same (a b : Wire) : Bool :=
  let alike (xs ys : List Slot) : Bool := xs.length == ys.length && (xs.zip ys).all fun p => p.1.same p.2
  a.root.same b.root && a.objects.length == b.objects.length &&
    (a.objects.zip b.objects).all fun
      | (.list xs, .list ys) => alike xs ys
      | (.map xs, .map ys) => xs.map (·.1) == ys.map (·.1) && alike (xs.map (·.2)) (ys.map (·.2))
      | _ => false

end Wire

/-- Why a value has no wire form, or a wire form no value. -/
inductive CodecError where
  /-- a value of a kind that cannot be encoded, and the path to it -/
  | unsupported (kind : String) (path : String)
  /-- a reference beyond the object table -/
  | danglingRef (id : UInt32)
  /-- a text that is no wire form -/
  | json (fault : Json.Fault)
  deriving DecidableEq

def CodecError.name : CodecError → String
  | .unsupported .. => "Unsupported"
  | .danglingRef _ => "DanglingRef"
  | .json _ => "Json"

def CodecError.message : CodecError → String
  | .unsupported kind path => "Cannot encode value of type " ++ kind ++ " at " ++ path
  | .danglingRef id => "Wire graph references missing object #" ++ toString id.toNat
  | .json fault => "JSON error: " ++ fault.cause.message

/-! ## JSON text -/

open Json

/-- An object with a tag and perhaps a content. -/
def taggedDocument (tagKey tag contentKey : String) (content : Option Document) : Document :=
  .obj ((tagKey, .str tag) :: (content.map fun d => (contentKey, d)).toList)

/-- A list of bytes. -/
def bytesDocument (bs : List UInt8) : Document :=
  .arr (bs.map fun b => .num (.int b.toNat))

/-- The JSON form of a float: infinities and NaN are no JSON numbers and become strings. -/
def floatDocument (x : Binary64) : Document :=
  if x.isFinite then .num (.float x)
  else if x.isNaN then .str "nan"
  else if x.isNegative then .str "-inf"
  else .str "inf"

/-- The float of its JSON form. -/
def floatOfDocument? : Document → Option Binary64
  | .num (.float x) => some x
  | .num (.int n) => some (Binary64.ofInt n)
  | .str "nan" => some Binary64.nan
  | .str "inf" => some (Binary64.infinity false)
  | .str "-inf" => some (Binary64.infinity true)
  | _ => none

namespace Slot

def document : Slot → Document
  | .null => taggedDocument "t" "null" "v" none
  | .bool b => taggedDocument "t" "bool" "v" (some (.bool b))
  | .int n => taggedDocument "t" "int" "v" (some (.num (.int n.toInt)))
  | .float x => taggedDocument "t" "float" "v" (some (floatDocument x))
  | .str s => taggedDocument "t" "str" "v" (some (.str s))
  | .bytes bs => taggedDocument "t" "bytes" "v" (some (bytesDocument bs))
  | .view bs => taggedDocument "t" "view" "v" (some (bytesDocument bs))
  | .handle h => taggedDocument "t" "handle" "v" (some (.num (.int h.id.toNat)))
  | .ref id => taggedDocument "t" "ref" "v" (some (.num (.int id.toNat)))

/-- The alternatives of a slot by their tags. -/
def variants : Decoder.Variants Slot :=
  [("null", .alone .null),
    ("bool", .with .bool .bool),
    ("int", .with .int64 .int),
    ("float", .with (Decoder.any.mapOption floatOfDocument?) .float),
    ("str", .with .string .str),
    ("bytes", .with (.list .uint8) .bytes),
    ("view", .with (.list .uint8) .view),
    ("handle", .with .uint64 fun n => .handle ⟨n⟩),
    ("ref", .with .uint32 .ref)]

def decoder : Decoder Slot :=
  .tagged "t" "v" variants

end Slot

namespace WireObject

def document : WireObject → Document
  | .list slots => taggedDocument "t" "list" "v" (some (.arr (slots.map Slot.document)))
  | .map entries =>
    taggedDocument "t" "map" "v" (some (.arr (entries.map fun e => .arr [.str e.1, e.2.document])))

/-- The alternatives of a table entry by their tags. -/
def variants : Decoder.Variants WireObject :=
  [("list", .with (.list Slot.decoder) .list),
    ("map", .with (.list (.pair .string Slot.decoder)) .map)]

def decoder : Decoder WireObject :=
  .tagged "t" "v" variants

end WireObject

namespace Wire

/-- An empty object table is left out. -/
def document (w : Wire) : Document :=
  .obj (("root", w.root.document) ::
    if w.objects.isEmpty then [] else [("objects", .arr (w.objects.map WireObject.document))])

def decoder : Decoder Wire :=
  (Decoder.recordOptional "root" Slot.decoder "objects" (.list WireObject.decoder)).map
    fun (root, objects) => ⟨root, objects.getD []⟩

/-- The JSON text of a wire form, as bytes. -/
def write (w : Wire) : List UInt8 :=
  w.document.write

/-- The wire form of a JSON text. -/
def read (text : List UInt8) : Except CodecError Wire :=
  (decoder.readAll text).mapError .json

end Wire
end WorkerHost
