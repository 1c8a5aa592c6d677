import WorkerHost.Wire.Decode
import WorkerHost.Wire.Encode
/-!
The messages that cross a channel, and how the arguments of a call are packed: as one list, so that
objects shared between arguments stay shared.
-/

namespace WorkerHost

open Json

/-- Names a call on the side that made it. -/
structure CallId where
  id : UInt64
  deriving DecidableEq, Hashable, Inhabited

def CallId.text (c : CallId) : String :=
  "#" ++ toString c.id.toNat

/-- What a call invokes on the other side. -/
inductive Target where
  /-- a method registered under a name -/
  | method (name : String)
  /-- a callable of the other side's reference table -/
  | handle (h : HandleId)
  deriving DecidableEq, Inhabited

def Target.text : Target → String
  | .method name => name
  | .handle h => h.text

/-- A handler's failure, carried back to the caller. -/
structure RemoteError where
  kind : String
  message : String
  deriving DecidableEq, Inhabited

def RemoteError.text (e : RemoteError) : String :=
  e.kind ++ ": " ++ e.message

/-- A message. -/
inductive Message where
  | call (id : CallId) (target : Target) (args : Wire)
  | reply (id : CallId) (value : Wire)
  | fail (id : CallId) (error : RemoteError)
  deriving DecidableEq

namespace Message

def id : Message → CallId
  | .call id .. | .reply id _ | .fail id _ => id

end Message

/-! ## JSON text -/

namespace Target

def document : Target → Document
  | .method name => taggedDocument "kind" "method" "name" (some (.str name))
  | .handle h => taggedDocument "kind" "handle" "name" (some (.num (.int h.id.toNat)))

/-- The alternatives of a target by their kinds. -/
def variants : Decoder.Variants Target :=
  [("method", .with .string .method),
    ("handle", .with .uint64 fun n => .handle ⟨n⟩)]

def decoder : Decoder Target :=
  .tagged "kind" "name" variants

end Target

namespace RemoteError

def document (e : RemoteError) : Document :=
  .obj [("kind", .str e.kind), ("message", .str e.message)]

def decoder : Decoder RemoteError :=
  (Decoder.record₂ "kind" .string "message" .string).map fun (kind, message) => ⟨kind, message⟩

end RemoteError

namespace Message

def document : Message → Document
  | .call id target args =>
    .obj [("type", .str "call"), ("id", .num (.int id.id.toNat)), ("target", target.document),
      ("args", args.document)]
  | .reply id value =>
    .obj [("type", .str "reply"), ("id", .num (.int id.id.toNat)), ("value", value.document)]
  | .fail id error =>
    .obj [("type", .str "fail"), ("id", .num (.int id.id.toNat)), ("error", error.document)]

/-- The alternatives of a message by their types. -/
def variant : String → Option (Decoder Message)
  | "call" =>
    some ((Decoder.record₃ "id" .uint64 "target" Target.decoder "args" Wire.decoder).map
      fun (id, target, args) => .call ⟨id⟩ target args)
  | "reply" =>
    some ((Decoder.record₂ "id" .uint64 "value" Wire.decoder).map fun (id, value) => .reply ⟨id⟩ value)
  | "fail" =>
    some ((Decoder.record₂ "id" .uint64 "error" RemoteError.decoder).map
      fun (id, error) => .fail ⟨id⟩ error)
  | _ => none

def decoder : Decoder Message :=
  .internallyTagged "type" variant

/-- The JSON text of a message, as bytes. -/
def write (m : Message) : List UInt8 :=
  m.document.write

/-- The message of a JSON text. -/
def read (text : List UInt8) : Except Fault Message :=
  decoder.readAll text

end Message

/-! ## Arguments -/

/-- The wire form of an argument list. The list that holds the arguments is not kept. -/
def packArgs (h : Heap) (args : List Value) : Except CodecError Wire :=
  let (v, h) := h.newList args
  Wire.encode h v

/-- The arguments of a wire form. What is no list counts as one argument, and null as none. -/
def unpackArgs (h : Heap) (w : Wire) : Except CodecError (List Value × Heap) := do
  let (v, h) ← Wire.decode h w
  match v with
  | .object ref =>
    match h.read ref with
    | .list items => return (items, h)
    | .map _ => return ([v], h)
  | .null => return ([], h)
  | v => return ([v], h)

end WorkerHost
