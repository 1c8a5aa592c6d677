import WorkerHost.Proofs.Wire.Discovery

/-!
# Which graphs are not encoded

A graph is not encoded if a function can be reached in it, and for no other reason. The failure has
a path to a function, by which it really is reached: the first in the order in which the objects are
discovered and, in an object, of its places.

* `Wire.failure?_encode`: encoding fails with the first function among `Heap.slotsOf` the discovered
  objects;
* `Wire.encode_rejects_functions`: exactly the graphs with functions fail, each with a true path.
-/

namespace WorkerHost

def Value.isFunction : Value → Bool
  | .function _ => true
  | _ => false

lemma Value.isFunction_iff {v : Value} : v.isFunction = true ↔ ∃ f, v = .function f := by
  cases v <;> simp [isFunction]

namespace Heap
variable {h : Heap} {v : Value}

/-- The values that objects hold, in the order of the objects and of the places in them, with the
paths through the objects. -/
def slotsOf (h : Heap) (xs : List Sighting) : List (List Segment × Value) :=
  xs.flatMap fun x => (ObjectTable.places (h.read x.ref)).map fun p => (x.path ++ [p.1], p.2)

/-- What is held by an object that a path leads to stands at the end of its own path. -/
lemma follow?_of_mem_slotsOf {xs : List Sighting}
    (hxs : ∀ x ∈ xs, h.follow? v x.path = some (.object x.ref)) {q : List Segment × Value}
    (hq : q ∈ h.slotsOf xs) : h.follow? v q.1 = some q.2 := by
  obtain ⟨x, hx, hq⟩ := List.mem_flatMap.1 hq
  obtain ⟨p, hp, rfl⟩ := List.mem_map.1 hq
  rw [follow?_concat (hxs x hx), step?_of_mem_places hp]

end Heap

/-! ## The first function -/

/-- The failure for the first function among values with paths to them. -/
def firstFunction (slots : List (List Segment × Value)) : Option CodecError :=
  (slots.find? (·.2.isFunction)).map fun q => .unsupported "function" (pathText q.1)

lemma firstFunction_append (slots slots' : List (List Segment × Value)) :
    firstFunction (slots ++ slots') = (firstFunction slots).or (firstFunction slots') := by
  rw [firstFunction, List.find?_append, Option.map_or]
  rfl

lemma firstFunction_flatMap {α : Type} (f : α → List (List Segment × Value)) (l : List α) :
    firstFunction (l.flatMap f) = l.findSome? fun a => firstFunction (f a) := by
  rw [firstFunction, List.find?_flatMap, List.map_findSome?]
  rfl

lemma firstFunction_map {α : Type} (f : α → List Segment × Value) (l : List α) :
    firstFunction (l.map f) = l.findSome? fun a => firstFunction [f a] := by
  rw [← firstFunction_flatMap, ← List.map_eq_flatMap]

namespace ObjectTable.Coherent
variable {h : Heap} {t : ObjectTable}

/-- Where every object has its number, a slot fails for a function only. -/
lemma failure?_slot (ht : t.Coherent) {v : Value} (hv : ∀ r, v = .object r → r ∈ t.order)
    (p : List Segment) :
    failure? (t.slot v fun _ => pathText p) = firstFunction [(p, v)] := by
  cases v with
  | object r =>
    simp only [slot, ht.getElem?_ids (hv r rfl)]
    rfl
  | _ => rfl

/-- An entry fails for the first function that stands in its object. -/
lemma failure?_entry (ht : t.Coherent) {i r : ℕ}
    (hr : ∀ s, .object s ∈ (h.read r).children → s ∈ t.order) :
    failure? (t.entry h i r) = firstFunction (h.slotsOf [⟨r, t.path i⟩]) := by
  have hslot (v : Value) (hv : v ∈ (h.read r).children) (s : Segment) :
      failure? (t.slot v fun _ => slotPath t i s) = firstFunction [(t.path i ++ [s], v)] :=
    ht.failure?_slot (fun s hs => hr s (hs ▸ hv)) _
  rw [Heap.slotsOf, List.flatMap_singleton, firstFunction_map]
  unfold entry
  cases hread : h.read r with
  | list items =>
    rw [hread] at hslot
    have hplaces : places (.list items) =
        items.zipIdx.map fun p => (.index p.2, p.1) := List.mapIdx_eq_zipIdx_map
    rw [hplaces, List.findSome?_map]
    refine (failure?_bind (e := none) fun _ => rfl).trans ?_
    rw [Option.or_none]
    exact failure?_mapM fun p hp => hslot p.1 (List.fst_mem_of_mem_zipIdx hp) _
  | map entries =>
    rw [hread] at hslot
    rw [places, List.findSome?_map]
    refine (failure?_bind (e := none) fun _ => rfl).trans ?_
    rw [Option.or_none]
    refine failure?_mapM fun e he => (failure?_bind (e := none) fun _ => rfl).trans ?_
    rw [Option.or_none]
    exact hslot e.2 (List.mem_map_of_mem he) _

end ObjectTable.Coherent

namespace Wire
variable {h : Heap} {v : Value}

/-- Encoding fails for the first function in the discovered objects, or for the root. -/
lemma failure?_encode (h : Heap) (v : Value) : failure? (encode h v) =
    firstFunction (h.slotsOf (ObjectTable.ofValue h v).sightings ++ [([], v)]) := by
  have ht := ObjectTable.ofValue_coherent h v
  have hentry (p : ℕ × ℕ) (hp : p ∈ (ObjectTable.ofValue h v).order.toList.zipIdx) :
      failure? ((ObjectTable.ofValue h v).entry h p.2 p.1) =
        firstFunction (h.slotsOf [⟨p.1, (ObjectTable.ofValue h v).path p.2⟩]) := by
    have hr := ObjectTable.mem_order_ofValue.1
      (Array.mem_toList_iff.1 (List.fst_mem_of_mem_zipIdx hp))
    exact ht.failure?_entry fun s hs => ObjectTable.mem_order_ofValue.2 (Heap.Reaches.child hr hs)
  have hroot (objects : List WireObject) :
      failure? (do return ⟨← (ObjectTable.ofValue h v).slot v fun _ => "$", objects⟩ :
        Except CodecError Wire) = firstFunction [([], v)] := by
    rw [failure?_bind (e := none) fun _ => rfl, Option.or_none]
    refine ht.failure?_slot (fun r hr => ?_) []
    rw [hr]
    exact ObjectTable.mem_order_ofValue.2 Heap.objectsFrom_object_self
  have hslots : firstFunction (h.slotsOf (ObjectTable.ofValue h v).sightings) =
      (ObjectTable.ofValue h v).order.toList.zipIdx.findSome? fun p =>
        firstFunction (h.slotsOf [⟨p.1, (ObjectTable.ofValue h v).path p.2⟩]) := by
    rw [ObjectTable.sightings_eq_map, Heap.slotsOf, List.flatMap_map, firstFunction_flatMap]
    simp only [Heap.slotsOf, List.flatMap_singleton]
  unfold encode
  rw [failure?_bind hroot, failure?_mapM hentry, firstFunction_append, hslots]

lemma exists_encode_iff : (∃ w, encode h v = .ok w) ↔ h.FunctionFree v :=
  ⟨fun ⟨_, hw⟩ => functionFree_of_encode hw, fun hv => ⟨_, encode_eq hv⟩⟩

/-- Exactly the graphs in which a function can be reached are not encoded. Let `found` be the
objects in depth-first order of first visit, with the paths of their first discovery: then what is
reported is the first function that stands in one of them, or else the root, and the path leads from
the root to it. -/
theorem encode_rejects_functions (h : Heap) (v : Value) :
    ∃ found, (∀ out, Discovery h [] v.sightings out ↔ out = found) ∧
      Preorder h.next [] v.ref?.toList (found.map (·.ref)) ∧
      ((∃ e, encode h v = .error e) ↔ ∃ f, h.Reaches v (.function f)) ∧
      ∀ e, encode h v = .error e ↔ ∃ path f,
        (h.slotsOf found ++ [([], v)]).find? (fun q : List Segment × Value => q.2.isFunction) =
            some (path, .function f) ∧
          h.follow? v path = some (.function f) ∧ e = .unsupported "function" (pathText path) := by
  have hfound := ObjectTable.discovery_ofValue h v
  refine ⟨(ObjectTable.ofValue h v).sightings,
    fun out => ⟨fun hout => hout.unique hfound, fun heq => heq ▸ hfound⟩, ?_, ?_, fun e => ?_⟩
  · have hroot : v.sightings.map (·.ref) = v.ref?.toList := by
      simp [Value.sightings, Function.comp_def]
    exact hroot ▸ hfound.preorder
  · have hfail : (∃ e, encode h v = .error e) ↔ ¬ ∃ w, encode h v = .ok w := by
      cases encode h v <;> simp
    rw [hfail, exists_encode_iff, Heap.FunctionFree]
    simp
  · rw [← failure?_eq_some_iff, failure?_encode, firstFunction, Option.map_eq_some_iff]
    constructor
    · rintro ⟨⟨path, w⟩, hfind, rfl⟩
      have hfun := List.find?_some hfind
      obtain ⟨f, rfl⟩ := Value.isFunction_iff.1 hfun
      refine ⟨path, f, hfind, ?_, rfl⟩
      rcases List.mem_append.1 (List.mem_of_find?_eq_some hfind) with hq | hq
      · exact Heap.follow?_of_mem_slotsOf ObjectTable.follow?_of_mem_sightings hq
      · cases List.mem_singleton.1 hq
        rfl
    · rintro ⟨path, f, hfind, -, rfl⟩
      exact ⟨_, hfind, rfl⟩

end Wire
end WorkerHost
