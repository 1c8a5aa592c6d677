import WorkerHost.Proofs.Value.Isomorphism
import WorkerHost.Value.Display

/-!
# The text of a value graph

`Heap.textBelow` keeps the objects it is inside of by their numbers, and shows one that comes again
as `[...]`. Under a renaming that is injective on the reachable objects the same objects come again,
and so every text stays as it is, if those of the values that are no objects do.

* `Heap.textIn_object`: the text of an object from the texts of what it holds;
* `Heap.textIn_map`: a change of values that shows in no text;
* `Isomorphic.display_eq`: isomorphic graphs have the same text.
-/

namespace WorkerHost

/-- The object with each value replaced. -/
def Object.mapValues (g : Value → Value) : Object → Object
  | .list items => .list (items.map g)
  | .map entries => .map (entries.map g)

lemma Object.rename_eq_mapValues (f : ℕ → ℕ) (o : Object) :
    o.rename f = o.mapValues (·.rename f) := by
  cases o <;> rfl

namespace Heap

lemma display_str (h : Heap) (text : String) : h.display (.str text) = text := by
  rw [display, textBelow]
  simp

/-- The text of a value inside the objects of `path`, in one piece. -/
def textIn (h : Heap) (path : List ℕ) (v : Value) : String :=
  String.join (h.textBelow path v)

lemma join_textOfItems (h : Heap) (path : List ℕ) (r : ℕ) (hlt : r < h.size) (hin : r ∉ path)
    (items : List Value) : String.join (textOfItems h path r hlt hin items) =
      ", ".intercalate (items.map (h.textIn (r :: path))) := by
  induction items with
  | nil => rw [textOfItems]; rfl
  | cons v rest ih =>
    cases rest with
    | nil =>
      rw [textOfItems, List.map_singleton, String.intercalate_singleton]
      rfl
    | cons w rest =>
      rw [List.map_cons] at ih
      rw [textOfItems, List.map_cons, List.map_cons, String.intercalate_cons_cons, ← ih,
        String.join_append, String.join_cons, ← String.append_assoc]
      rfl

lemma join_textOfEntries (h : Heap) (path : List ℕ) (r : ℕ) (hlt : r < h.size) (hin : r ∉ path)
    (entries : List (String × Value)) :
    String.join (textOfEntries h path r hlt hin entries) =
      ", ".intercalate (entries.map fun e => e.1 ++ ": " ++ h.textIn (r :: path) e.2) := by
  induction entries with
  | nil => rw [textOfEntries]; rfl
  | cons e rest ih =>
    obtain ⟨k, v⟩ := e
    cases rest with
    | nil =>
      rw [textOfEntries, List.map_singleton, String.intercalate_singleton, String.join_cons]
      rfl
    | cons e rest =>
      rw [List.map_cons] at ih
      rw [textOfEntries, List.map_cons, List.map_cons, String.intercalate_cons_cons, ← ih,
        List.cons_append, String.join_cons, String.join_append, String.join_cons]
      simp only [textIn, ← String.append_assoc]

/-- The text of an object from the texts of what it holds. -/
def textOfObject (text : Value → String) : Object → String
  | .list items => "[" ++ ", ".intercalate (items.map text) ++ "]"
  | .map entries =>
    "\x7b" ++ ", ".intercalate (entries.entries.map fun e => e.1 ++ ": " ++ text e.2) ++ "\x7d"

/-- The text of an object that is not inside itself. Outside the heap it is that of an empty list.
-/
lemma textIn_object (h : Heap) {path : List ℕ} {r : ℕ} (hin : r ∉ path) :
    h.textIn path (.object r) = textOfObject (h.textIn (r :: path)) (h.read r) := by
  rw [textIn, textBelow, dif_neg hin]
  by_cases hlt : r < h.size
  · have hread : h.read r = h.objects[r] := by
      rw [read, Array.getD_eq_getD_getElem?, Array.getElem?_eq_getElem hlt, Option.getD_some]
    rw [dif_pos hlt, hread]
    cases h.objects[r] with
    | list items =>
      simp only [textOfObject, List.cons_append, String.join_cons, String.join_append,
        join_textOfItems, String.join_nil, String.append_empty, String.append_assoc]
    | map entries =>
      simp only [textOfObject, List.cons_append, String.join_cons, String.join_append,
        join_textOfEntries, String.join_nil, String.append_empty, String.append_assoc]
  · rw [dif_neg hlt, read_of_size_le hlt]
    rfl

lemma textOfObject_map {g : Value → Value} {text text' : Value → String} {o : Object}
    (h : ∀ v ∈ o.children, text' (g v) = text v) :
    textOfObject text' (o.mapValues g) = textOfObject text o := by
  cases o with
  | list items =>
    have hmap : (items.map g).map text' = items.map text := by
      rw [List.map_map]
      exact List.map_congr_left h
    simp only [Object.mapValues, textOfObject, hmap]
  | map entries =>
    have hmap : (entries.map g).entries.map (fun e => e.1 ++ ": " ++ text' e.2) =
        entries.entries.map fun e => e.1 ++ ": " ++ text e.2 := by
      rw [Dict.entries_map, List.map_map]
      refine List.map_congr_left fun e he => ?_
      rw [Function.comp_apply, h e.2 (List.mem_map_of_mem he)]
    simp only [Object.mapValues, textOfObject, hmap]

/-- What is no object has the same text everywhere. -/
lemma textIn_of_ne_object (h : Heap) (path : List ℕ) {v : Value} (hv : ∀ r, v ≠ .object r) :
    h.textIn path v = empty.display v := by
  cases v with
  | object r => exact absurd rfl (hv r)
  | bool b => cases b <;> simp [display, textIn, textBelow]
  | _ => simp [display, textIn, textBelow]

/-- A change of values that renames references without making two one, and leaves the texts of other
values as they are, leaves all texts as they are. -/
lemma textIn_map {h h' : Heap} {v : Value} {f : ℕ → ℕ} {g : Value → Value}
    (hinj : Set.InjOn f (h.objectsFrom v)) (hobject : ∀ r, g (.object r) = .object (f r))
    (hother : ∀ w, (∀ r, w ≠ .object r) →
      (∀ r, g w ≠ .object r) ∧ empty.display (g w) = empty.display w)
    (hread : ∀ r ∈ h.objectsFrom v, h'.read (f r) = (h.read r).mapValues g)
    (path : List ℕ) (hpath : ∀ r ∈ path, r ∈ h.objectsFrom v) (w : Value) (hw : h.Reaches v w) :
    h'.textIn (path.map f) (g w) = h.textIn path w := by
  by_cases hobj : ∃ r, w = .object r
  · obtain ⟨r, rfl⟩ := hobj
    have hmem : f r ∈ path.map f ↔ r ∈ path := by
      refine ⟨fun hx => ?_, List.mem_map_of_mem⟩
      obtain ⟨s, hs, heq⟩ := List.mem_map.1 hx
      exact hinj (hpath s hs) hw heq ▸ hs
    -- an object comes again on both sides or on neither
    by_cases hin : r ∈ path
    · rw [hobject, textIn, textIn, textBelow, textBelow, dif_pos hin, dif_pos (hmem.2 hin)]
    · rw [hobject, textIn_object h hin, textIn_object h' (mt hmem.1 hin), hread r hw]
      refine textOfObject_map fun u hu => ?_
      have hlt : r < h.size := by
        by_contra hge
        rw [read_of_size_le hge] at hu
        cases hu
      -- one object more to be inside of is one less that can come
      have hless := h.unvisited_cons_lt hlt hin
      exact textIn_map hinj hobject hother hread (r :: path) (List.forall_mem_cons.2 ⟨hw, hpath⟩) u
        (Reaches.child hw hu)
  · rw [not_exists] at hobj
    obtain ⟨hother', heq⟩ := hother w hobj
    rw [textIn_of_ne_object h' _ hother', textIn_of_ne_object h _ hobj, heq]
termination_by h.unvisited path

end Heap

/-- Isomorphic graphs have the same text. -/
theorem Isomorphic.display_eq {h h' : Heap} {v v' : Value} (hiso : Isomorphic h v h' v') :
    h'.display v' = h.display v := by
  obtain ⟨f, iso⟩ := hiso
  rw [iso.root]
  refine Heap.textIn_map (f := f) (g := (·.rename f)) iso.bijOn.injOn (fun r => rfl)
    (fun w hw => ?_) (fun r hr => ?_) [] (by simp) v .refl
  · cases w with
    | object r => exact absurd rfl (hw r)
    | _ => exact ⟨fun r => by simp [Value.rename], rfl⟩
  · rw [iso.contents r hr, Object.rename_eq_mapValues]

end WorkerHost
