import WorkerHost.Value.Basic
/-!
The heap: the objects that values refer to, and the identities given to functions. Reading a
reference gives the object's present contents, so a change through one alias shows through all.
-/

namespace WorkerHost

/-- All objects, by reference, and the number of functions made so far. -/
structure Heap where
  objects : Array Object
  functions : Nat

namespace Heap

def empty : Heap := ⟨#[], 0⟩

instance : Inhabited Heap := ⟨empty⟩

/-- The number of objects. -/
def size (h : Heap) : Nat :=
  h.objects.size

/-- The contents of an object. A reference that was never allocated reads as an empty list. -/
def read (h : Heap) (ref : Nat) : Object :=
  h.objects.getD ref (.list [])

/-- Replaces the contents of an object. -/
def write (h : Heap) (ref : Nat) (o : Object) : Heap :=
  { h with objects := h.objects.setIfInBounds ref o }

/-- A fresh object. -/
def alloc (h : Heap) (o : Object) : Nat × Heap :=
  (h.objects.size, { h with objects := h.objects.push o })

/-- A value that is a fresh list. -/
def newList (h : Heap) (items : List Value) : Value × Heap :=
  let (ref, h) := h.alloc (.list items)
  (.object ref, h)

/-- A value that is a fresh map; a later entry for a key replaces an earlier one. -/
def newMap (h : Heap) (entries : List (String × Value)) : Value × Heap :=
  let (ref, h) := h.alloc (.map (Dict.ofList entries))
  (.object ref, h)

/-- A function with an identity of its own. -/
def newFunction (h : Heap) (name : String) (body : Body) : Function × Heap :=
  (⟨h.functions, name, body⟩, { h with functions := h.functions + 1 })

/-- The field of a map under a key. -/
def get? (h : Heap) (v : Value) (key : String) : Option Value :=
  match v with
  | .object ref =>
    match h.read ref with
    | .map entries => entries.get? key
    | .list _ => none
  | _ => none

/-- The element of a list at a position. -/
def index? (h : Heap) (v : Value) (i : Nat) : Option Value :=
  match v with
  | .object ref =>
    match h.read ref with
    | .list items => items[i]?
    | .map _ => none
  | _ => none

/-- The short name of a value's kind. -/
def kind (h : Heap) : Value → String
  | .null => "null"
  | .bool _ => "bool"
  | .int _ => "int"
  | .float _ => "float"
  | .str _ => "str"
  | .bytes _ => "bytearray"
  | .view _ => "memoryview"
  | .object ref => (h.read ref).kind
  | .handle _ => "handle"
  | .function _ => "function"

end Heap

/-- One step from a value to a value it holds. -/
inductive Segment where
  | key (k : String)
  | index (i : Nat)
  deriving DecidableEq

namespace Heap

/-- The value one step away. -/
def step? (h : Heap) (v : Value) : Segment → Option Value
  | .key k => h.get? v k
  | .index i => h.index? v i

/-- The value at the end of a path. -/
def follow? (h : Heap) (v : Value) : List Segment → Option Value
  | [] => some v
  | s :: rest => (h.step? v s).bind fun w => h.follow? w rest

end Heap

/-- A change of one object. -/
inductive Edit where
  /-- appends a value to a list -/
  | push (v : Value)
  /-- sets a key of a map -/
  | set (key : String) (v : Value)
  /-- appends a value to a list or sets it under the key `link` of a map -/
  | link (v : Value)

/-- The contents after an edit; one that does not fit the kind of object changes nothing. -/
def Edit.apply : Edit → Object → Object
  | .push v, .list items | .link v, .list items => .list (items ++ [v])
  | .set k v, .map entries => .map (entries.insert k v)
  | .link v, .map entries => .map (entries.insert "link" v)
  | _, o => o

/-- Edits the object that a value refers to. -/
def Heap.edit (h : Heap) (target : Value) (e : Edit) : Heap :=
  match target with
  | .object ref => h.write ref (e.apply (h.read ref))
  | _ => h

end WorkerHost
