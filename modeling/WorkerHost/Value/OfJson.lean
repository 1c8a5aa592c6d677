import WorkerHost.Json.Document
import WorkerHost.Value.Heap
/-!
The value of a JSON document: a tree in which every array and object is a fresh, unshared object.
-/

namespace WorkerHost.Heap

open Json

mutual

/-- The value of a document. An integer beyond 64 bits with sign becomes a float. -/
def ofJson (h : Heap) : Document → Value × Heap
  | .null => (.null, h)
  | .bool b => (.bool b, h)
  | .num (.int n) =>
    (if n < 2 ^ 63 then .int (Int64.ofInt n) else .float (Binary64.ofInt n), h)
  | .num (.float x) => (.float x, h)
  | .str s => (.str s, h)
  | .arr items =>
    let (items, h) := ofJsonItems h items
    h.newList items
  | .obj members =>
    let (entries, h) := ofJsonMembers h members
    h.newMap entries

/-- The values of the items of an array. -/
def ofJsonItems (h : Heap) : List Document → List Value × Heap
  | [] => ([], h)
  | d :: rest =>
    let (v, h) := ofJson h d
    let (vs, h) := ofJsonItems h rest
    (v :: vs, h)

/-- The values of the members of an object. -/
def ofJsonMembers (h : Heap) : List (String × Document) → List (String × Value) × Heap
  | [] => ([], h)
  | (k, d) :: rest =>
    let (v, h) := ofJson h d
    let (vs, h) := ofJsonMembers h rest
    ((k, v) :: vs, h)

end

end WorkerHost.Heap
