import Std.Data.HashMap
import WorkerHost.Value.Display
import WorkerHost.Wire.Basic
/-!
Encoding a value graph. A walk with its own stack numbers the reachable objects in depth-first
order of discovery, so that nesting is bounded by memory only; then every object is written as a
table entry, its compound children as numbers.
-/

namespace WorkerHost

/-- Where an object was first reached: the number of the object that held it, and its place there.
-/
structure Origin where
  parent : Option Nat
  segment : Option Segment
  deriving Inhabited

/-- The numbering of the objects reachable from a value. -/
structure ObjectTable where
  /-- the number of each object -/
  ids : Std.HashMap Nat Nat
  /-- the objects by number -/
  order : Array Nat
  /-- where each of them was first reached -/
  origins : Array Origin

namespace ObjectTable

def empty : ObjectTable := ⟨∅, #[], #[]⟩

/-- An object that the walk has still to visit. -/
structure Pending where
  ref : Nat
  parent : Option Nat
  segment : Option Segment

/-- The objects that a table entry's values refer to, from the values and their places. -/
def childrenOf (parent : Nat) : List (Segment × Value) → List Pending
  | [] => []
  | (s, .object ref) :: rest => ⟨ref, some parent, some s⟩ :: childrenOf parent rest
  | _ :: rest => childrenOf parent rest

/-- The values an object holds, each with its place. -/
def places : Object → List (Segment × Value)
  | .list items => items.mapIdx fun i v => (.index i, v)
  | .map entries => entries.entries.map fun e => (.key e.1, e.2)

/-- Gives an object the next number. -/
def visit (t : ObjectTable) (p : Pending) : ObjectTable where
  ids := t.ids.insert p.ref t.order.size
  order := t.order.push p.ref
  origins := t.origins.push ⟨p.parent, p.segment⟩

/-- How many objects of a heap have no number yet. -/
def unnumbered (t : ObjectTable) (h : Heap) : Nat :=
  (List.range h.size).countP (fun r => !t.ids.contains r)

/-- A visit numbers one more object. -/
theorem unnumbered_visit_lt {t : ObjectTable} {h : Heap} {p : Pending} (hlt : p.ref < h.size)
    (hnew : t.ids.contains p.ref = false) : (t.visit p).unnumbered h < t.unnumbered h := by
  unfold unnumbered
  have hmem : p.ref ∈ List.range h.size := List.mem_range.2 hlt
  obtain ⟨before, after, hsplit⟩ := List.append_of_mem hmem
  rw [hsplit]
  have hle (rs : List Nat) : rs.countP (fun r => !(t.visit p).ids.contains r) ≤
      rs.countP (fun r => !t.ids.contains r) := by
    apply List.countP_mono_left
    intro r _ hr
    simp_all [visit]
  simp only [List.countP_append, List.countP_cons]
  have h₁ := hle before
  have h₂ := hle after
  have h₃ : (!(t.visit p).ids.contains p.ref) = false := by simp [visit]
  have h₄ : (!t.ids.contains p.ref) = true := by simp [hnew]
  rw [h₃, h₄]
  simp only [Bool.false_eq_true, if_false, if_true]
  omega

/-- Visits the objects of a stack and all below them. An object that has its number is passed over,
and the children of a new one go on top, the first of them uppermost. A reference outside the heap
is an empty list. -/
def collect (h : Heap) (t : ObjectTable) : List Pending → ObjectTable
  | [] => t
  | p :: stack =>
    if _hnum : t.ids.contains p.ref then collect h t stack
    else if _hlt : p.ref < h.size then
      collect h (t.visit p) (childrenOf t.order.size (places (h.read p.ref)) ++ stack)
    else collect h (t.visit p) stack
termination_by stack => (t.unnumbered h, stack.length)
decreasing_by
  · exact Prod.Lex.right _ (by simp)
  · exact Prod.Lex.left _ _ (unnumbered_visit_lt _hlt (by simpa using _hnum))
  · have hle : (t.visit p).unnumbered h ≤ t.unnumbered h := by
      apply List.countP_mono_left
      intro r _ hr
      simp_all [visit]
    rcases Nat.lt_or_eq_of_le hle with hlt' | heq
    · exact Prod.Lex.left _ _ hlt'
    · rw [heq]
      exact Prod.Lex.right _ (by simp)

/-- Numbers the objects reachable from a value. -/
def ofValue (h : Heap) : Value → ObjectTable
  | .object ref => collect h empty [⟨ref, none, none⟩]
  | _ => empty

/-- The steps from the root to an object, found by going from each object to the one that held it,
which has a smaller number. -/
def pathLoop (t : ObjectTable) : Nat → Nat → List Segment → List Segment
  | 0, _, acc => acc
  | fuel + 1, id, acc =>
    match t.origins[id]? with
    | some ⟨some parent, some s⟩ => pathLoop t fuel parent (s :: acc)
    | _ => acc

/-- The steps by which an object was first reached. -/
def path (t : ObjectTable) (id : Nat) : List Segment :=
  pathLoop t (id + 1) id []

end ObjectTable

/-- The text of a path from a root. -/
def pathText (path : List Segment) : String :=
  "$" ++ String.join (path.map fun
    | .key k => "." ++ k
    | .index i => "[" ++ toString i ++ "]")

/-- The text of a place inside an object, which stands there without the object's own place if the
object is the root. -/
def slotPath (t : ObjectTable) (id : Nat) (s : Segment) : String :=
  pathText (t.path id ++ [s])

namespace ObjectTable

/-- The slot of a value; `path` says where it stands. -/
def slot (t : ObjectTable) (v : Value) (path : Unit → String) : Except CodecError Slot :=
  match v with
  | .null => .ok .null
  | .bool b => .ok (.bool b)
  | .int n => .ok (.int n)
  | .float x => .ok (.float x)
  | .str s => .ok (.str s)
  | .bytes bs => .ok (.bytes bs)
  | .view bs => .ok (.view bs)
  | .handle h => .ok (.handle h)
  | .object ref =>
    match t.ids[ref]? with
    | some id => .ok (.ref (UInt32.ofNat id))
    | none => .error (.unsupported "unvisited object" (path ()))
  | .function _ => .error (.unsupported "function" (path ()))

/-- The table entry of an object. -/
def entry (t : ObjectTable) (h : Heap) (id ref : Nat) : Except CodecError WireObject :=
  match h.read ref with
  | .list items => do
    let slots ← items.zipIdx.mapM fun (v, i) =>
      t.slot v fun _ => slotPath t id (.index i)
    return .list slots
  | .map entries => do
    let es ← entries.entries.mapM fun (k, v) => do
      return (k, ← t.slot v fun _ => slotPath t id (.key k))
    return .map es

end ObjectTable

/-- The wire form of a value. -/
def Wire.encode (h : Heap) (v : Value) : Except CodecError Wire := do
  let t := ObjectTable.ofValue h v
  let objects ← t.order.toList.zipIdx.mapM fun (ref, id) => t.entry h id ref
  let root ← t.slot v fun _ => "$"
  return ⟨root, objects⟩

/-- The JSON text of a value's wire form, as bytes. -/
def Wire.encodeJson (h : Heap) (v : Value) : Except CodecError (List UInt8) :=
  (Wire.encode h v).map Wire.write

end WorkerHost
