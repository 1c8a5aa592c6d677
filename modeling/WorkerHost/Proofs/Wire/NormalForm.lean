import Mathlib.Order.Interval.Finset.Nat
import WorkerHost.Proofs.Wire.Preorder

/-!
# The wire form as a normal form

A wire form may be written by hand: with entries that nothing refers to, in any order, and with keys
that repeat. `Wire.NormalForm x y` says on the wire alone what `y` is if `x` is brought in order:
unreachable entries are dropped, the others stand in depth-first order of first visit, and the
entries of a map are sorted by key, the last one for each key kept.

* `Wire.encode_decode`: decoding and then encoding gives the normal form;
* `Wire.encode_canonical`: two graphs have one wire form exactly if they are isomorphic, and the
  wire forms that encoding gives are the normal forms.
-/

namespace WorkerHost

/-! ## Bringing a wire form in order -/

/-- The table entry that a slot refers to. -/
def Slot.ref? : Slot → Option ℕ
  | .ref id => some id.toNat
  | _ => none

/-- The slot with its table entry called by the position in `order`. -/
def Slot.renumber (order : List ℕ) : Slot → Slot
  | .ref id => .ref (UInt32.ofNat (order.idxOf id.toNat))
  | s => s

namespace WireObject

/-- The entry with the keys of a map in their order, and the last entry for each of them. -/
def tidy : WireObject → WireObject
  | .list slots => .list slots
  | .map entries => .map ((Dict.lastEntries entries).mergeSort fun a b => a.1 ≤ b.1)

/-- The entry with other table entries called by their positions in `order`. -/
def renumber (order : List ℕ) : WireObject → WireObject
  | .list slots => .list (slots.map (·.renumber order))
  | .map entries => .map (entries.map fun e => (e.1, e.2.renumber order))

end WireObject

namespace Wire

/-- The table entry of a number, brought in order by itself. -/
def entry (x : Wire) (i : ℕ) : WireObject :=
  (x.objects.getD i (.list [])).tidy

/-- The table entries that an entry refers to, in the order of their places. -/
def next (x : Wire) (i : ℕ) : List ℕ :=
  (x.entry i).slots.filterMap Slot.ref?

/-- The root leads to a table entry. -/
def Reachable (x : Wire) (i : ℕ) : Prop :=
  ∃ r, x.root.ref? = some r ∧ Relation.ReflTransGen (fun a b => b ∈ x.next a) r i

/-- The list has the reachable table entries, each once, in depth-first order of first visit. -/
structure VisitOrder (x : Wire) (order : List ℕ) : Prop where
  preorder : Preorder x.next [] x.root.ref?.toList order
  nodup : order.Nodup
  mem_iff : ∀ i, i ∈ order ↔ x.Reachable i

/-- The wire form with the table entries of a list, in the order of the list, and with references
to fit. -/
def arrange (x : Wire) (order : List ℕ) : Wire :=
  ⟨x.root.renumber order, order.map fun i => (x.entry i).renumber order⟩

/-- `y` is `x` without unreachable entries, the others in depth-first order of first visit, and
every map with its last entries in the order of the keys. -/
def NormalForm (x y : Wire) : Prop :=
  ∃ order, x.VisitOrder order ∧ y = x.arrange order

variable {x : Wire}

/-- A depth-first walk from the root gives the one visit order. -/
lemma visitOrder_of_preorder {order : List ℕ} (hw : Preorder x.next [] x.root.ref?.toList order) :
    x.VisitOrder order := by
  refine ⟨hw, hw.nodup List.nodup_nil, fun i => ?_⟩
  rw [hw.mem_iff]
  simp only [Reachable, Option.mem_toList]

/-- A wire form has one normal form at most. -/
lemma NormalForm.unique {y y' : Wire} (hy : x.NormalForm y) (hy' : x.NormalForm y') : y = y' := by
  obtain ⟨order, horder, rfl⟩ := hy
  obtain ⟨order', horder', rfl⟩ := hy'
  rw [horder.preorder.unique horder'.preorder]

/-! ## What is decoded -/

lemma below_of_resolve {base count : ℕ} {s : Slot} {v : Value}
    (hs : resolve base count s = .ok v) : s.Below count := by
  intro id hid
  subst hid
  simp only [resolve] at hs
  split at hs
  · next hlt => exact hlt
  · cases hs

lemma below_of_object {base count : ℕ} {o : WireObject} {o' : Object}
    (ho : object base count o = .ok o') : ∀ s ∈ o.slots, s.Below count := by
  intro s hs
  cases o with
  | list slots =>
    obtain ⟨vs, hvs, -⟩ := bind_eq_ok.1 ho
    obtain ⟨v, hv⟩ := exists_of_mapM_eq_ok hvs s hs
    exact below_of_resolve hv
  | map entries =>
    obtain ⟨es, hes, -⟩ := bind_eq_ok.1 ho
    obtain ⟨e, he, rfl⟩ := List.mem_map.1 hs
    obtain ⟨p, hp⟩ := exists_of_mapM_eq_ok hes e he
    obtain ⟨v, hv, -⟩ := bind_eq_ok.1 hp
    exact below_of_resolve hv

/-- Only a wire form whose references stay inside its table is decoded. -/
lemma closed_of_decode {h₀ h : Heap} {v : Value} (hx : decode h₀ x = .ok (v, h)) : x.Closed := by
  obtain ⟨objects, hobjects, hx⟩ := bind_eq_ok.1 hx
  obtain ⟨root, hroot, -⟩ := bind_eq_ok.1 hx
  refine ⟨below_of_resolve hroot, fun o ho => ?_⟩
  obtain ⟨o', ho'⟩ := exists_of_mapM_eq_ok hobjects o ho
  exact below_of_object ho'

end Wire

namespace WireObject

lemma tidy_map (entries : List (String × Slot)) :
    (map entries).tidy = .map (Dict.ofList entries).entries :=
  congrArg map (Dict.entries_ofList_eq_mergeSort entries).symm

/-- Bringing an entry in order does not change its object. -/
lemma toObject_tidy (base : ℕ) (o : WireObject) : o.tidy.toObject base = o.toObject base := by
  cases o with
  | list slots => rfl
  | map entries => rw [tidy_map, toObject, toObject, Dict.ofList_map_entries, Dict.ofList_map]

lemma children_toObject_tidy (base : ℕ) (o : WireObject) :
    (o.tidy.toObject base).children = o.tidy.slots.map (·.toValue base) := by
  cases o with
  | list slots => rfl
  | map entries =>
    rw [tidy_map, toObject, Dict.ofList_map_entries]
    simp [Object.children, slots, Dict.values]

/-- The entry of an object is the entry it was decoded from, with other numbers. -/
lemma toEntry_toObject_tidy {n : ℕ → ℕ} {order : List ℕ} {base : ℕ} {o : WireObject}
    (hslot : ∀ s ∈ o.tidy.slots, (s.toValue base).toSlot n = s.renumber order) :
    (o.tidy.toObject base).toEntry n = o.tidy.renumber order := by
  cases o with
  | list slots =>
    simp only [tidy, toObject, Object.toEntry, renumber, List.map_map]
    exact congrArg list (List.map_congr_left hslot)
  | map entries =>
    rw [tidy_map] at hslot ⊢
    rw [toObject, Dict.ofList_map_entries]
    simp only [Object.toEntry, Dict.entries_map, renumber, List.map_map]
    refine congrArg map (List.map_congr_left fun e he => ?_)
    exact congrArg (Prod.mk e.1) (hslot e.2 (List.mem_map_of_mem he))

end WireObject

namespace Slot
variable {s : Slot}

lemma ref?_toValue (base : ℕ) (s : Slot) : (s.toValue base).ref? = s.ref?.map (base + ·) := by
  cases s <;> rfl

lemma toSlot_toValue {n : ℕ → ℕ} {order : List ℕ} {base : ℕ}
    (hn : ∀ id : UInt32, s = .ref id → n (base + id.toNat) = order.idxOf id.toNat) :
    (s.toValue base).toSlot n = s.renumber order := by
  cases s with
  | ref id => simp only [toValue, Value.toSlot, renumber, hn id rfl]
  | _ => rfl

lemma ne_function_toValue (base : ℕ) (s : Slot) (f : Function) : s.toValue base ≠ .function f := by
  cases s <;> simp [toValue]

/-- A decoded reference stays in the part of the heap that 32 bits reach. -/
lemma mem_Ico_of_toValue {base r : ℕ} (hs : s.toValue base = .object r) :
    r ∈ Set.Ico base (base + 2 ^ 32) := by
  cases s with
  | ref id =>
    cases hs
    have := id.toNat_lt
    exact ⟨Nat.le_add_right _ _, Nat.add_lt_add_left this _⟩
  | _ => cases hs

end Slot

namespace Wire
variable {x : Wire} {h₀ : Heap}

/-- The objects of a table at their places behind the old heap. A number beyond the table is a place
beyond the heap, and both read as an empty list. -/
lemma read_extend_add (h₀ : Heap) (x : Wire) (i : ℕ) :
    (extend h₀ x).read (h₀.size + i) = (x.entry i).toObject h₀.size := by
  rw [entry, WireObject.toObject_tidy]
  simp only [extend, Heap.read, Heap.size, Array.getD_eq_getD_getElem?]
  rw [Array.getElem?_append_right (Nat.le_add_right _ _), Nat.add_sub_cancel_left]
  cases hi : x.objects[i]? with
  | none => simp [hi, WireObject.toObject]
  | some o => simp [hi]

lemma children_extend_add (h₀ : Heap) (x : Wire) (i : ℕ) :
    ((extend h₀ x).read (h₀.size + i)).children = (x.entry i).slots.map (·.toValue h₀.size) := by
  rw [read_extend_add]
  exact WireObject.children_toObject_tidy h₀.size _

lemma next_extend_add (h₀ : Heap) (x : Wire) (i : ℕ) :
    (extend h₀ x).next (h₀.size + i) = (x.next i).map (h₀.size + ·) := by
  rw [Heap.next, children_extend_add, List.filterMap_map, next, List.map_filterMap]
  exact congrArg (List.filterMap · _) (funext (Slot.ref?_toValue h₀.size))

/-- A place that 32 bits reach is the place of a number. -/
lemma exists_add_of_mem_Ico {base r : ℕ} (hr : r ∈ Set.Ico base (base + 2 ^ 32)) :
    ∃ i, r = base + i :=
  ⟨r - base, (Nat.add_sub_cancel' hr.1).symm⟩

lemma mem_Ico_of_child {r s : ℕ} (hr : r ∈ Set.Ico h₀.size (h₀.size + 2 ^ 32))
    (hs : .object s ∈ ((extend h₀ x).read r).children) :
    s ∈ Set.Ico h₀.size (h₀.size + 2 ^ 32) := by
  obtain ⟨i, rfl⟩ := exists_add_of_mem_Ico hr
  rw [children_extend_add] at hs
  obtain ⟨slot, -, hslot⟩ := List.mem_map.1 hs
  exact Slot.mem_Ico_of_toValue hslot

lemma objectsFrom_extend_subset (h₀ : Heap) (x : Wire) :
    (extend h₀ x).objectsFrom (x.root.toValue h₀.size) ⊆ Set.Ico h₀.size (h₀.size + 2 ^ 32) :=
  Heap.objectsFrom_subset (fun _ hr => Slot.mem_Ico_of_toValue hr)
    fun _ hr _ hs => mem_Ico_of_child hr hs

/-- What is decoded can be encoded: it holds no function. -/
lemma functionFree_extend (h₀ : Heap) (x : Wire) :
    (extend h₀ x).FunctionFree (x.root.toValue h₀.size) := by
  refine Heap.functionFree_iff.2 ⟨Slot.ne_function_toValue _ _, fun r hr w hw => ?_⟩
  obtain ⟨i, rfl⟩ := exists_add_of_mem_Ico (objectsFrom_extend_subset h₀ x hr)
  rw [children_extend_add] at hw
  obtain ⟨slot, -, rfl⟩ := List.mem_map.1 hw
  exact Slot.ne_function_toValue _ _

/-- References of 32 bits lead to no more objects than that. -/
lemma encard_objectsFrom_extend (h₀ : Heap) (x : Wire) :
    ((extend h₀ x).objectsFrom (x.root.toValue h₀.size)).encard ≤ 2 ^ 32 := by
  refine (Set.encard_le_encard (objectsFrom_extend_subset h₀ x)).trans_eq ?_
  rw [← Finset.coe_Ico, Set.encard_coe_eq_coe_finsetCard, Nat.card_Ico, Nat.add_sub_cancel_left]
  rfl

/-- The table entries in the order in which encoding numbers what they are decoded to. -/
def visited (h₀ : Heap) (x : Wire) : List ℕ :=
  (ObjectTable.ofValue (extend h₀ x) (x.root.toValue h₀.size)).order.toList.map (· - h₀.size)

/-- They are in depth-first order of first visit. -/
lemma preorder_visited (h₀ : Heap) (x : Wire) :
    Preorder x.next [] x.root.ref?.toList (visited h₀ x) := by
  have hwalk := ObjectTable.preorder_ofValue (extend h₀ x) (x.root.toValue h₀.size)
  have hstack : (x.root.toValue h₀.size).ref?.toList.map (· - h₀.size) = x.root.ref?.toList := by
    rw [Slot.ref?_toValue]
    cases x.root.ref? <;> simp
  rw [← hstack, visited]
  -- the walk through the heap stays where 32 bits reach, and there a place tells its number
  refine hwalk.map (S := Set.Ico h₀.size (h₀.size + 2 ^ 32)) ?_ ?_ ?_ (by simp) ?_
  · intro r hr s hs heq
    have := hr.1
    have := hs.1
    simp only at heq
    omega
  · intro r hr s hs
    obtain ⟨u, hu, hus⟩ := List.mem_filterMap.1 hs
    rw [Value.ref?_eq_some_iff] at hus
    exact mem_Ico_of_child hr (hus ▸ hu)
  · intro r hr
    obtain ⟨i, rfl⟩ := exists_add_of_mem_Ico hr
    rw [next_extend_add, List.map_map, Nat.add_sub_cancel_left]
    simp [Function.comp_def]
  · intro r hr
    rw [Option.mem_toList, Value.ref?_eq_some_iff] at hr
    exact Slot.mem_Ico_of_toValue hr

end Wire

lemma ObjectTable.Coherent.idxOf_map_order {t : ObjectTable} (ht : t.Coherent) {g : ℕ → ℕ}
    (hg : (t.order.toList.map g).Nodup) {r : ℕ} (hr : r ∈ t.order) :
    (t.order.toList.map g).idxOf (g r) = t.number r := by
  have hsome : (t.order.toList.map g)[t.number r]? = some (g r) := by
    simp [ht.getElem?_order hr]
  obtain ⟨hlt, hget⟩ := List.getElem?_eq_some_iff.1 hsome
  rw [← hget, hg.idxOf_getElem]

namespace Wire
variable {x : Wire} {h₀ h : Heap} {v : Value}

/-- Decoding and then encoding brings a wire form in order. -/
theorem encode_decode (hx : decode h₀ x = .ok (v, h)) :
    ∃ y, encode h v = .ok y ∧ x.NormalForm y := by
  rw [decode_eq (closed_of_decode hx)] at hx
  cases hx
  have horder := visitOrder_of_preorder (preorder_visited h₀ x)
  have ht := ObjectTable.ofValue_coherent (extend h₀ x) (x.root.toValue h₀.size)
  refine ⟨_, encode_eq (functionFree_extend h₀ x), visited h₀ x, horder, ?_⟩
  -- a number that encoding gives is a position in the order of visits
  have hslot : ∀ s : Slot, (extend h₀ x).Reaches (x.root.toValue h₀.size) (s.toValue h₀.size) →
      (s.toValue h₀.size).toSlot
        (ObjectTable.ofValue (extend h₀ x) (x.root.toValue h₀.size)).number =
          s.renumber (visited h₀ x) := by
    intro s hs
    refine Slot.toSlot_toValue fun id hid => ?_
    subst hid
    have hidx := ht.idxOf_map_order horder.nodup (ObjectTable.mem_order_ofValue.2 hs)
    rw [Nat.add_sub_cancel_left] at hidx
    exact hidx.symm
  rw [arrange, hslot x.root .refl]
  refine congrArg (Wire.mk _) ?_
  -- the object at a visited place was decoded from the table entry of that number
  rw [visited, List.map_map]
  refine List.map_congr_left fun r hr => ?_
  have hr := ObjectTable.mem_order_ofValue.1 (Array.mem_toList_iff.1 hr)
  obtain ⟨i, rfl⟩ := exists_add_of_mem_Ico (objectsFrom_extend_subset h₀ x hr)
  rw [Function.comp_apply, Nat.add_sub_cancel_left, read_extend_add]
  refine WireObject.toEntry_toObject_tidy fun s hs => hslot s (Heap.Reaches.child hr ?_)
  rw [children_extend_add]
  exact List.mem_map_of_mem hs

/-- What was decoded comes back from its wire form with the same wire form, in any heap. -/
lemma encode_decode_encode {y : Wire} (hx : decode h₀ x = .ok (v, h)) (hy : encode h v = .ok y)
    (h₁ : Heap) : ∃ v' h', decode h₁ y = .ok (v', h') ∧ encode h' v' = .ok y := by
  rw [decode_eq (closed_of_decode hx)] at hx
  cases hx
  obtain ⟨w, v', h', hw, hdec, iso⟩ :=
    decode_encode (functionFree_extend h₀ x) (encard_objectsFrom_extend h₀ x) h₁
  rw [hy] at hw
  cases hw
  exact ⟨v', h', hdec, (Isomorphic.encode_eq ⟨_, iso⟩).trans hy⟩

/-- The wire form is a canonical form. Graphs that can be encoded, in whatever heaps, have the same
one exactly if they are isomorphic. For a wire form that can be decoded, encoding what it is decoded
to gives its normal form, the only one it has, and gives that back from itself. -/
theorem encode_canonical :
    (∀ (h : Heap) (v : Value) (h' : Heap) (v' : Value) (w w' : Wire),
      encode h v = .ok w → encode h' v' = .ok w' →
      (h.objectsFrom v).encard ≤ 2 ^ 32 → (h'.objectsFrom v').encard ≤ 2 ^ 32 →
      (w = w' ↔ Isomorphic h v h' v')) ∧
    (∀ (h₀ : Heap) (x : Wire) (v : Value) (h : Heap), decode h₀ x = .ok (v, h) →
      ∃ y, encode h v = .ok y ∧ (∀ z, x.NormalForm z ↔ z = y) ∧
        ∀ h₁, ∃ v' h', decode h₁ y = .ok (v', h') ∧ encode h' v' = .ok y) := by
  constructor
  · intro h v h' v' w w' hw hw' hsize hsize'
    constructor
    · intro heq
      subst heq
      exact Isomorphic.of_encode_eq hw hw' hsize hsize'
    · intro hiso
      rw [hiso.encode_eq, hw] at hw'
      exact Except.ok.inj hw'
  · intro h₀ x v h hx
    obtain ⟨y, hy, hnormal⟩ := encode_decode hx
    refine ⟨y, hy, fun z => ⟨fun hz => hz.unique hnormal, ?_⟩, encode_decode_encode hx hy⟩
    intro heq
    rw [heq]
    exact hnormal

/-- Entry 0 is referred to by none, a key of entry 1 repeats, and the root has the last number. -/
def untidy : Wire :=
  ⟨.ref 3, [.list [.ref 2], .map [("b", .null), ("a", .ref 3), ("b", .ref 2)], .list [],
    .list [.ref 1, .ref 2, .ref 1]]⟩

/-- The table of `untidy` in order. -/
def tidied : Wire :=
  ⟨.ref 0, [.list [.ref 1, .ref 2, .ref 1], .map [("a", .ref 0), ("b", .ref 2)], .list []]⟩

lemma entry_untidy : untidy.entry 1 = .map [("a", .ref 3), ("b", .ref 2)] :=
  (WireObject.tidy_map _).trans rfl

lemma preorder_untidy : Preorder untidy.next [] [3] [3, 1, 2] := by
  have hmap : untidy.next 1 = [3, 2] := by
    rw [next, entry_untidy]
    rfl
  -- entry 2 is first reached through the map, before its second place in the list
  have hbelow : Preorder untidy.next [3, 1] (untidy.next 1) [3, 1, 2] := by
    rw [hmap]
    exact .again (by decide) (.first (by decide) (.done _) (.done _))
  have hrest : Preorder untidy.next [3, 1, 2] [2, 1] [3, 1, 2] :=
    .again (by decide) (.again (by decide) (.done _))
  exact .first (by simp) (.first (by decide) hbelow hrest) (.done _)

lemma normalForm_untidy : untidy.NormalForm tidied := by
  refine ⟨_, visitOrder_of_preorder preorder_untidy, ?_⟩
  simp only [arrange, List.map_cons, List.map_nil, entry_untidy]
  rfl

/-- The two tables, one decoded behind the objects of `sharedLoop` and the other in a heap of its
own, are isomorphic graphs with one wire form. -/
theorem encode_canonical_untidy :
    decode sharedLoop untidy = .ok (.object 5, extend sharedLoop untidy) ∧
      encode (extend sharedLoop untidy) (.object 5) = .ok tidied ∧
      ∃ v' h', decode .empty tidied = .ok (v', h') ∧ encode h' v' = .ok tidied ∧
        Isomorphic (extend sharedLoop untidy) (.object 5) h' v' := by
  obtain ⟨hiff, hnormal⟩ := encode_canonical
  have hdecode : decode sharedLoop untidy = .ok (.object 5, extend sharedLoop untidy) := by
    rfl
  obtain ⟨y, hy, huniq, hback⟩ := hnormal _ _ _ _ hdecode
  cases (huniq tidied).1 normalForm_untidy
  obtain ⟨v', h', hdecode', hy'⟩ := hback .empty
  have hsize' : (h'.objectsFrom v').encard ≤ 2 ^ 32 := by
    have hextend := decode_eq (h := .empty) (closed_of_decode hdecode')
    rw [hdecode'] at hextend
    cases hextend
    exact encard_objectsFrom_extend .empty tidied
  have hsize := encard_objectsFrom_extend sharedLoop untidy
  exact ⟨hdecode, hy, v', h', hdecode', hy', (hiff _ _ _ _ _ _ hy hy' hsize hsize').1 rfl⟩

end Wire
end WorkerHost
