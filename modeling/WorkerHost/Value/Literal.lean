import WorkerHost.Json.Access
import WorkerHost.Text.Hex
import WorkerHost.Wire.Encode
/-!
A written form of value graphs, as JSON documents. Scalars stand for themselves, or are objects
whose one key says their kind; fresh lists and maps are written in place, and objects that are
shared or lie on a cycle are entries of a list of nodes, which any place can refer to by number:

* `null`, `true`, `5`, `"text"`, `{"f": bits}`, `{"b": hex}`, `{"w": hex}`, `{"h": 7}`: scalars,
  with the bits of a float and the bytes of a buffer or view in hexadecimal;
* `{"l": [...]}`, `{"m": [[key, value], ...]}`: a list, a map;
* `{"fn": name, "body": text}`: a function;
* `{"r": 2}`: the node of that number;
* `{"deep": {"kind": "l", "n": 3, "leaf": ...}}`: nested one-element lists, or maps;
* `{"root": value, "nodes": [...]}`: a graph.
-/

namespace WorkerHost

open Json

/-- The body that a text names; what no text names answers null. -/
def Body.ofText (s : String) : Body :=
  match s with
  | "args" => .arguments
  | "first" => .first
  | "count" => .count
  | "sum" => .sum
  | "kinds" => .kinds
  | "show" => .show
  | "fn" => .makeFunction
  | "fail" => .fail
  | s => if s.startsWith "call:" then .forward (s.drop 5).toString else .nothing

namespace Literal

/-- An integer as a number, a negative one as zero. -/
def number (d : Document) : Nat :=
  (d.asInt?.getD 0).toNat

/-- A function by its name and body. -/
def function (d : Document) : StateM Heap Value := fun h =>
  let (f, h) := h.newFunction (d.strMember "fn") (.ofText (d.strMember "body"))
  (.function f, h)

/-- Nested objects with one member each around a value. -/
def nested (asMap : Bool) : Nat → Value → StateM Heap Value
  | 0, v => pure v
  | n + 1, v => do
    let v ← fun h => if asMap then h.newMap [("k", v)] else h.newList [v]
    nested asMap n v

mutual

/-- The value that a document writes, given the nodes that it can refer to. -/
def value (nodes : Array Value) : Document → StateM Heap Value
  | .null => pure .null
  | .bool b => pure (.bool b)
  | .num (.int n) => pure (.int (Int64.ofInt n))
  | .num (.float x) => pure (.float x)
  | .str s => pure (.str s)
  | .arr _ => pure .null
  | .obj [("f", .str s)] => pure (.float (.ofHex s))
  | .obj [("b", .str s)] => pure (.bytes (Text.bytesOfHex s))
  | .obj [("w", .str s)] => pure (.view (Text.bytesOfHex s))
  | .obj [("h", n)] => pure (.handle ⟨UInt64.ofNat (number n)⟩)
  | .obj [("r", n)] => pure (nodes.getD (number n) .null)
  | .obj [("l", .arr items)] => do
    let vs ← values nodes items
    fun h => h.newList vs
  | .obj [("m", .arr items)] => do
    let es ← entries nodes items
    fun h => h.newMap es
  | .obj [("deep", .obj ms)] => do
    let leaf ← leafOf nodes ms
    nested (Document.strMember "kind" (.obj ms) == "m") (((Document.obj ms).member? "n").map number |>.getD 0) leaf
  | d => function d

/-- The values of the items of an array. -/
def values (nodes : Array Value) : List Document → StateM Heap (List Value)
  | [] => pure []
  | d :: rest => do return (← value nodes d) :: (← values nodes rest)

/-- Pairs of a key and a value. -/
def entries (nodes : Array Value) : List Document → StateM Heap (List (String × Value))
  | [] => pure []
  | .arr [.str k, d] :: rest => do return (k, ← value nodes d) :: (← entries nodes rest)
  | _ :: rest => entries nodes rest

/-- The member `leaf`. -/
def leafOf (nodes : Array Value) : List (String × Document) → StateM Heap Value
  | [] => pure .null
  | (k, d) :: rest => if k == "leaf" then value nodes d else leafOf nodes rest

end

/-- An object or function for a node, without its contents. -/
def shell (d : Document) : StateM Heap Value := fun h =>
  if (d.member? "l").isSome then h.newList []
  else if (d.member? "m").isSome then h.newMap []
  else function d h

/-- Gives a node its contents. -/
def fill (nodes : Array Value) (d : Document) (v : Value) : StateM Heap Unit := do
  match v, d with
  | .object r, .obj [("l", .arr items)] => do
    let vs ← values nodes items
    modify fun h => h.write r (.list vs)
  | .object r, .obj [("m", .arr items)] => do
    let es ← entries nodes items
    modify fun h => h.write r (.map (Dict.ofList es))
  | _, _ => pure ()

/-- The nodes of a graph. All of them exist before any gets its contents. -/
def nodes (d : Document) : StateM Heap (Array Value) := do
  let ds := d.itemsMember "nodes"
  let vs ← ds.mapM shell
  (ds.zip vs).forM fun (d, v) => fill vs.toArray d v
  return vs.toArray

/-- The value of a graph or of a document without nodes. -/
def graph (d : Document) : StateM Heap Value := do
  match d.member? "root" with
  | some root => value (← nodes d) root
  | none => value #[] d

/-- The values under a key, over the nodes beside it. -/
def list (d : Document) (key : String) : StateM Heap (List Value) := do
  values (← nodes d) (d.itemsMember key)

/-- A list of arguments: graphs of their own, or arguments over common nodes. -/
def arguments (d : Document) : StateM Heap (List Value) := do
  match d with
  | .arr items => items.mapM graph
  | d => list d "args"

/-- The written form of a value within a graph, whose objects have numbers. -/
def place (t : ObjectTable) : Value → Document
  | .null => .null
  | .bool b => .bool b
  | .int n => .num (.int n.toInt)
  | .float x => .obj [("f", .str x.hex)]
  | .str s => .str s
  | .bytes bs => .obj [("b", .str (Text.hexOfBytes bs))]
  | .view bs => .obj [("w", .str (Text.hexOfBytes bs))]
  | .handle h => .obj [("h", .num (.int h.id.toNat))]
  | .function f => .obj [("fn", .str f.name)]
  | .object r => .obj [("r", .num (.int (t.ids.getD r 0)))]

/-- The written form of an object. -/
def node (t : ObjectTable) : Object → Document
  | .list items => .obj [("l", .arr (items.map (place t)))]
  | .map es => .obj [("m", .arr (es.entries.map fun (k, v) => .arr [.str k, place t v]))]

/-- The written form of a value: its objects are numbered in the order of the first visit. -/
def ofValue (h : Heap) (v : Value) : Document :=
  let t := ObjectTable.ofValue h v
  if v.isObject then
    .obj [("root", place t v), ("nodes", .arr (t.order.toList.map fun r => node t (h.read r)))]
  else place t v

end Literal
end WorkerHost
