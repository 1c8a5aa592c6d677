import WorkerHost.Proofs.Wire.RoundTrip

/-!
# The wire form does not depend on the heap

The walk over a graph looks at the numbers of objects only to tell them apart, so it goes through
isomorphic graphs in step. `ObjectTable.Renames f S t t'` is the relation between the two tables at
every turn of the two walks: the same numbers for corresponding objects, and the same places where
they were first reached. Everything that is written afterwards depends on no more than that.

* `ObjectTable.Renames.collect`: two walks in step end in related tables;
* `Isomorphic.encode_eq`: isomorphic graphs have the same wire form, or the same failure;
* `Isomorphic.of_encode_eq`: graphs with the same wire form are isomorphic.
-/

namespace WorkerHost
namespace ObjectTable

/-- The object that a stack entry refers to, renamed. -/
def Pending.rename (f : ℕ → ℕ) (p : Pending) : Pending :=
  { p with ref := f p.ref }

lemma places_rename (f : ℕ → ℕ) (o : Object) :
    places (o.rename f) = (places o).map fun p => (p.1, p.2.rename f) := by
  cases o with
  | list items =>
    apply List.ext_getElem?
    intro i
    simp [places, Object.rename, Option.map_map, Function.comp_def]
  | map entries => simp [places, Object.rename, Function.comp_def]

lemma childrenOf_rename (f : ℕ → ℕ) (parent : ℕ) (ps : List (Segment × Value)) :
    childrenOf parent (ps.map fun p => (p.1, p.2.rename f)) =
      (childrenOf parent ps).map (·.rename f) := by
  induction ps with
  | nil => rfl
  | cons p ps ih =>
    obtain ⟨s, v⟩ := p
    cases v <;> simpa [childrenOf, Value.rename, Pending.rename] using ih

/-- One turn of the walk. An object outside the heap reads as an empty list and adds nothing to the
stack, so it needs no case of its own. -/
lemma collect_cons (h : Heap) (t : ObjectTable) (p : Pending) (stack : List Pending) :
    collect h t (p :: stack) =
      if t.ids.contains p.ref then collect h t stack
      else collect h (t.visit p) (childrenOf t.order.size (places (h.read p.ref)) ++ stack) := by
  rw [collect]
  by_cases hnum : t.ids.contains p.ref = true
  · rw [dif_pos hnum, if_pos hnum]
  · rw [dif_neg hnum, if_neg hnum]
    split
    · rfl
    · next hlt =>
      rw [Heap.read_of_size_le hlt]
      rfl

/-! ## Two walks in step -/

/-- The second table says of the renamed objects what the first says of the objects of `S`. -/
structure Renames (f : ℕ → ℕ) (S : Set ℕ) (t t' : ObjectTable) : Prop where
  ids : ∀ r ∈ S, t'.ids[f r]? = t.ids[r]?
  order : t'.order.toList = t.order.toList.map f
  origins : t'.origins = t.origins

namespace Renames
variable {f : ℕ → ℕ} {S : Set ℕ} {t t' : ObjectTable}

lemma empty : Renames f S .empty .empty :=
  ⟨by simp [ObjectTable.empty], rfl, rfl⟩

lemma size_order (ht : Renames f S t t') : t'.order.size = t.order.size := by
  rw [← Array.length_toList, ← Array.length_toList, ht.order, List.length_map]

lemma contains_iff (ht : Renames f S t t') {r : ℕ} (hr : r ∈ S) :
    t'.ids.contains (f r) = t.ids.contains r := by
  rw [Std.HashMap.contains_eq_isSome_getElem?, Std.HashMap.contains_eq_isSome_getElem?, ht.ids r hr]

/-- Corresponding objects get the same next number. -/
lemma visit (hinj : Set.InjOn f S) (ht : Renames f S t t') {p : Pending} (hp : p.ref ∈ S) :
    Renames f S (t.visit p) (t'.visit (p.rename f)) := by
  refine ⟨?_, ?_, ?_⟩
  · intro r hr
    simp only [ObjectTable.visit, Pending.rename, Std.HashMap.getElem?_insert, ht.size_order,
      beq_iff_eq, hinj.eq_iff hp hr, ht.ids r hr]
  · simp [ObjectTable.visit, Pending.rename, ht.order]
  · simp [ObjectTable.visit, Pending.rename, ht.origins]

variable {h h' : Heap} {stack : List Pending}

/-- Walks over corresponding stacks stay in step to their ends. -/
lemma collect (hinj : Set.InjOn f S)
    (hclosed : ∀ r ∈ S, ∀ s, .object s ∈ (h.read r).children → s ∈ S)
    (hread : ∀ r ∈ S, h'.read (f r) = (h.read r).rename f)
    (ht : Renames f S t t') (hstack : ∀ p ∈ stack, p.ref ∈ S) :
    Renames f S (collect h t stack) (collect h' t' (stack.map (·.rename f))) := by
  -- the walks turn together: an object has a number on both sides or on neither
  induction t, stack using collect.induct h generalizing t' with
  | case1 t =>
    rw [ObjectTable.collect, List.map_nil, ObjectTable.collect]
    exact ht
  | case2 t p stack hnum ih =>
    have hp : p.ref ∈ S := hstack p List.mem_cons_self
    have hnum' : t'.ids.contains (p.rename f).ref = true := (ht.contains_iff hp).trans hnum
    rw [List.map_cons, collect_cons, collect_cons, if_pos hnum, if_pos hnum']
    exact ih ht fun q hq => hstack q (List.mem_cons_of_mem _ hq)
  | case3 t p stack hnum hlt ih =>
    have hp : p.ref ∈ S := hstack p List.mem_cons_self
    have hnum' : ¬ t'.ids.contains (p.rename f).ref = true := by
      rwa [show t'.ids.contains (p.rename f).ref = _ from ht.contains_iff hp]
    have hchildren : childrenOf t'.order.size (places (h'.read (p.rename f).ref)) =
        (childrenOf t.order.size (places (h.read p.ref))).map (·.rename f) := by
      rw [ht.size_order, show h'.read (p.rename f).ref = _ from hread p.ref hp, places_rename,
        childrenOf_rename]
    rw [List.map_cons, collect_cons, collect_cons, if_neg hnum, if_neg hnum', hchildren,
      ← List.map_append]
    refine ih (ht.visit hinj hp) ?_
    intro q hq
    rcases List.mem_append.1 hq with hq | hq
    · exact hclosed p.ref hp _ (exists_childrenOf_places.1 ⟨q, hq, rfl⟩)
    · exact hstack q (List.mem_cons_of_mem _ hq)
  | case4 t p stack hnum hlt ih =>
    have hp : p.ref ∈ S := hstack p List.mem_cons_self
    have hnum' : ¬ t'.ids.contains (p.rename f).ref = true := by
      rwa [show t'.ids.contains (p.rename f).ref = _ from ht.contains_iff hp]
    have hempty : h.read p.ref = .list [] := Heap.read_of_size_le hlt
    have hempty' : h'.read (p.rename f).ref = .list [] := by
      rw [show h'.read (p.rename f).ref = _ from hread p.ref hp, hempty]
      rfl
    rw [List.map_cons, collect_cons, collect_cons, if_neg hnum, if_neg hnum', hempty, hempty']
    exact ih (ht.visit hinj hp) fun q hq => hstack q (List.mem_cons_of_mem _ hq)

/-! ## Entries -/

lemma path_eq (ht : Renames f S t t') (id : ℕ) : t'.path id = t.path id := by
  have hloop : ∀ fuel id acc, pathLoop t' fuel id acc = pathLoop t fuel id acc := by
    intro fuel
    induction fuel with
    | zero => intro id acc; rfl
    | succ fuel ih =>
      intro id acc
      simp only [pathLoop, ht.origins, ih]
  exact hloop _ _ _

lemma slot_eq (ht : Renames f S t t') {v : Value} (hv : ∀ r, v = .object r → r ∈ S)
    (path : Unit → String) : t'.slot (v.rename f) path = t.slot v path := by
  cases v with
  | object r => simp only [slot, Value.rename_object, ht.ids r (hv r rfl)]
  | _ => rfl

/-- The entry of an object, or the failure with its path, is the entry of the renamed one. -/
lemma entry_eq (hclosed : ∀ r ∈ S, ∀ s, .object s ∈ (h.read r).children → s ∈ S)
    (hread : ∀ r ∈ S, h'.read (f r) = (h.read r).rename f) (ht : Renames f S t t') {r : ℕ}
    (hr : r ∈ S) (id : ℕ) : t'.entry h' id (f r) = t.entry h id r := by
  have hpath : ∀ s, slotPath t' id s = slotPath t id s := by
    intro s
    rw [slotPath, slotPath, ht.path_eq]
  have hslot : ∀ v ∈ (h.read r).children, ∀ path,
      t'.slot (v.rename f) path = t.slot v path :=
    fun v hv path => ht.slot_eq (fun s hs => hclosed r hr s (hs ▸ hv)) path
  unfold entry
  rw [hread r hr]
  cases hobject : h.read r with
  | list items =>
    simp only [hobject, Object.children] at hslot
    simp only [Object.rename, List.zipIdx_map, hpath]
    refine congrArg (· >>= fun slots => pure (WireObject.list slots)) (mapM_map_congr ?_)
    intro p hp
    exact hslot p.1 (List.fst_mem_of_mem_zipIdx hp) _
  | map entries =>
    simp only [hobject, Object.children] at hslot
    simp only [Object.rename, Dict.entries_map, hpath]
    refine congrArg (· >>= fun es => pure (WireObject.map es)) (mapM_map_congr ?_)
    intro e he
    rw [hslot e.2 (List.mem_map_of_mem he)]

end Renames

/-- The tables of isomorphic graphs are related. -/
lemma renames_ofValue {f : ℕ → ℕ} {h h' : Heap} {v v' : Value}
    (iso : IsomorphicVia f h v h' v') :
    Renames f (h.objectsFrom v) (ofValue h v) (ofValue h' v') := by
  rw [iso.root]
  cases v with
  | object r =>
    have hstack : ∀ p ∈ [(⟨r, none, none⟩ : Pending)], p.ref ∈ h.objectsFrom (.object r) := by
      intro p hp
      rw [List.mem_singleton.1 hp]
      exact Heap.objectsFrom_object_self
    exact Renames.collect iso.bijOn.injOn (fun s hs c hc => Heap.Reaches.child hs hc) iso.contents
      .empty hstack
  | _ => exact .empty

end ObjectTable

/-! ## Wire forms -/

section
variable {h h' : Heap} {v v' : Value}

/-- Isomorphic graphs have the same wire form, or the same failure with the same path. -/
theorem Isomorphic.encode_eq (hiso : Isomorphic h v h' v') :
    Wire.encode h' v' = Wire.encode h v := by
  obtain ⟨f, iso⟩ := hiso
  have ht := ObjectTable.renames_ofValue iso
  have hentries : ∀ p ∈ (ObjectTable.ofValue h v).order.toList.zipIdx,
      (ObjectTable.ofValue h' v').entry h' p.2 (f p.1) =
        (ObjectTable.ofValue h v).entry h p.2 p.1 := by
    intro p hp
    have hr := ObjectTable.mem_order_ofValue.1
      (Array.mem_toList_iff.1 (List.fst_mem_of_mem_zipIdx hp))
    exact ht.entry_eq (fun s hs c hc => Heap.Reaches.child hs hc) iso.contents hr p.2
  have hroot : (ObjectTable.ofValue h' v').slot v' (fun _ => "$") =
      (ObjectTable.ofValue h v).slot v fun _ => "$" := by
    nth_rewrite 2 [iso.root]
    refine ht.slot_eq (fun r hr => ?_) _
    rw [hr]
    exact Heap.objectsFrom_object_self
  have hplaces : (ObjectTable.ofValue h' v').order.toList.zipIdx =
      (ObjectTable.ofValue h v).order.toList.zipIdx.map (Prod.map f id) := by
    rw [ht.order, List.zipIdx_map]
  -- the same entries are encoded in the same order, so the first failure is the same too
  unfold Wire.encode
  dsimp only
  rw [hplaces, hroot, mapM_map_congr hentries]

/-- Graphs of at most `2 ^ 32` objects that have the same wire form are isomorphic: both are
isomorphic to what the wire form is decoded to. -/
theorem Isomorphic.of_encode_eq {w : Wire} (hw : Wire.encode h v = .ok w)
    (hw' : Wire.encode h' v' = .ok w) (hsize : (h.objectsFrom v).encard ≤ 2 ^ 32)
    (hsize' : (h'.objectsFrom v').encard ≤ 2 ^ 32) : Isomorphic h v h' v' := by
  obtain ⟨_, u, g, henc, hdec, iso⟩ :=
    Wire.decode_encode (Wire.functionFree_of_encode hw) hsize .empty
  obtain ⟨_, u', g', henc', hdec', iso'⟩ :=
    Wire.decode_encode (Wire.functionFree_of_encode hw') hsize' .empty
  rw [hw] at henc
  cases henc
  rw [hw'] at henc'
  cases henc'
  rw [hdec] at hdec'
  cases hdec'
  exact .trans ⟨_, iso⟩ (.symm ⟨_, iso'⟩)

end
end WorkerHost
