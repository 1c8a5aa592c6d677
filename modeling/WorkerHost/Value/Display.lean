import WorkerHost.Numeric.FloatText
import WorkerHost.Value.Heap
/-!
The text of a value as a person sees it. An object inside itself is shown as `[...]`; an object that
is merely shared is shown in full at each place. What native functions answer, some of them with
such texts.
-/

namespace WorkerHost.Heap

/-- How many objects are not on a path. -/
def unvisited (h : Heap) (path : List Nat) : Nat :=
  (List.range h.size).countP (fun r => !path.contains r)

/-- Going into a new object leaves fewer to go into. -/
theorem unvisited_cons_lt (h : Heap) {path : List Nat} {ref : Nat} (hlt : ref < h.size)
    (hnew : ref ∉ path) : h.unvisited (ref :: path) < h.unvisited path := by
  unfold unvisited
  have hmem : ref ∈ List.range h.size := List.mem_range.2 hlt
  obtain ⟨before, after, hsplit⟩ := List.append_of_mem hmem
  rw [hsplit]
  have hle (rs : List Nat) :
      rs.countP (fun r => !(ref :: path).contains r) ≤ rs.countP (fun r => !path.contains r) := by
    apply List.countP_mono_left
    intro r _ hr
    simp_all
  simp only [List.countP_append, List.countP_cons]
  have h₁ := hle before
  have h₂ := hle after
  have h₃ : (!(ref :: path).contains ref) = false := by simp
  have h₄ : (!path.contains ref) = true := by simp [hnew]
  rw [h₃, h₄]
  simp only [Bool.false_eq_true, if_false, if_true]
  omega

mutual

/-- The text of a value below the objects of `path`. -/
def textBelow (h : Heap) (path : List Nat) (v : Value) : List String :=
  match v with
  | .null => ["None"]
  | .bool true => ["True"]
  | .bool false => ["False"]
  | .int n => [toString n.toInt]
  | .float x => [x.display]
  | .str s => [s]
  | .bytes bs => ["bytearray(" ++ toString bs.length ++ " bytes)"]
  | .view bs => ["memoryview(" ++ toString bs.length ++ " bytes)"]
  | .handle id => ["<" ++ id.text ++ ">"]
  | .function f => ["<function " ++ f.name ++ ">"]
  | .object ref =>
    if hin : ref ∈ path then ["[...]"]
    else if hlt : ref < h.size then
      match h.objects[ref] with
      | .list items => "[" :: textOfItems h path ref hlt hin items ++ ["]"]
      | .map entries => "\x7b" :: textOfEntries h path ref hlt hin entries.entries ++ ["\x7d"]
    else ["[]"]
termination_by (h.unvisited path, 0)
decreasing_by
  all_goals exact Prod.Lex.left _ _ (unvisited_cons_lt h hlt hin)

/-- The texts of the items of a list, with commas between them. -/
def textOfItems (h : Heap) (path : List Nat) (ref : Nat) (hlt : ref < h.size) (hin : ref ∉ path) :
    List Value → List String
  | [] => []
  | [v] => textBelow h (ref :: path) v
  | v :: w :: rest =>
    textBelow h (ref :: path) v ++ ", " :: textOfItems h path ref hlt hin (w :: rest)
termination_by items => (h.unvisited (ref :: path), items.length + 1)

/-- The texts of the entries of a map, with commas between them. -/
def textOfEntries (h : Heap) (path : List Nat) (ref : Nat) (hlt : ref < h.size) (hin : ref ∉ path) :
    List (String × Value) → List String
  | [] => []
  | [(k, v)] => (k ++ ": ") :: textBelow h (ref :: path) v
  | (k, v) :: e :: rest =>
    (k ++ ": ") :: textBelow h (ref :: path) v ++ ", " :: textOfEntries h path ref hlt hin (e :: rest)
termination_by entries => (h.unvisited (ref :: path), entries.length + 1)

end

/-- The text of a value. -/
def display (h : Heap) (v : Value) : String :=
  String.join (h.textBelow [] v)

end WorkerHost.Heap

namespace WorkerHost

/-! ## Native functions -/

/-- What a body answers to arguments, and the heap with any new objects. A body that needs the other
side of a channel fails without one. -/
def Body.call (h : Heap) (args : List Value) : Body → Except String Value × Heap
  | .nothing => (.ok .null, h)
  | .arguments => let (v, h) := h.newList args; (.ok v, h)
  | .first => (.ok (args.headD .null), h)
  | .count => (.ok (.int (Int64.ofNat args.length)), h)
  | .sum => (.ok (.int ((args.filterMap Value.asInt?).foldl (· + ·) 0)), h)
  | .kinds => let (v, h) := h.newList (args.map fun a => .str (h.kind a)); (.ok v, h)
  | .show => (.ok (.str ("|".intercalate (args.map h.display))), h)
  | .makeFunction => let (f, h) := h.newFunction "inner" .nothing; (.ok (.function f), h)
  | .fail => (.error (" ".intercalate (args.map h.display)), h)
  | .forward _ | .service _ => (.error "no channel", h)

/-- What a function answers to arguments. -/
def Function.call (h : Heap) (f : Function) (args : List Value) : Except String Value × Heap :=
  f.body.call h args

/-- A function as shown in diagnostics. -/
def Function.debug (f : Function) : String :=
  "NativeFunction(" ++ f.name ++ ")"

end WorkerHost
