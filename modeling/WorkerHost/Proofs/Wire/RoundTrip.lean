import Mathlib.Tactic.NormNum
import WorkerHost.Proofs.Outcome
import WorkerHost.Proofs.Wire.Numbering
import WorkerHost.Wire.Decode

/-!
# Encoding and decoding a value graph

Encoding is a renaming of objects into table positions and decoding one back into fresh places of
a heap. Each of the two is first shown equal to a plain map over the table, `Wire.encode_eq` for a
graph without functions and `Wire.decode_eq` for a table whose references stay inside it; the two
renamings then compose.

* `Wire.decode_encode`: encoding and then decoding, into any heap, gives an isomorphic graph of
  fresh objects;
* `Wire.roundTrip_isomorphic`: the same with everything the isomorphism preserves spelled out.
-/

namespace WorkerHost

/-! ## Encoding -/

/-- The slot of a value whose objects have numbers. A function has no slot. -/
def Value.toSlot (n : ℕ → ℕ) : Value → Slot
  | .null => .null
  | .bool b => .bool b
  | .int k => .int k
  | .float x => .float x
  | .str s => .str s
  | .bytes bs => .bytes bs
  | .view bs => .view bs
  | .handle k => .handle k
  | .object r => .ref (UInt32.ofNat (n r))
  | .function _ => .null

/-- The table entry of an object whose objects have numbers. -/
def Object.toEntry (n : ℕ → ℕ) : Object → WireObject
  | .list items => .list (items.map (·.toSlot n))
  | .map entries => .map (entries.entries.map fun e => (e.1, e.2.toSlot n))

lemma Object.slots_toEntry (n : ℕ → ℕ) (o : Object) :
    (o.toEntry n).slots = o.children.map (·.toSlot n) := by
  cases o <;> simp [Object.toEntry, WireObject.slots, Object.children, Dict.values]

namespace ObjectTable
variable {t : ObjectTable} {h : Heap}

/-- The value has a slot: it is no function, and if it is an object, it has a number. -/
def HasSlot (t : ObjectTable) (v : Value) : Prop :=
  (∀ f, v ≠ .function f) ∧ ∀ r, v = .object r → r ∈ t.order

lemma Coherent.slot_eq (ht : t.Coherent) {v : Value} (hv : t.HasSlot v) (path : Unit → String) :
    t.slot v path = .ok (v.toSlot t.number) := by
  cases v with
  | object r =>
    simp only [slot, ht.getElem?_ids (hv.2 r rfl)]
    rfl
  | function f => exact absurd rfl (hv.1 f)
  | _ => rfl

lemma Coherent.entry_eq (ht : t.Coherent) {id r : ℕ} (hr : ∀ v ∈ (h.read r).children, t.HasSlot v) :
    t.entry h id r = .ok ((h.read r).toEntry t.number) := by
  unfold entry
  cases hread : h.read r with
  | list items =>
    simp only [hread, Object.children] at hr ⊢
    rw [mapM_eq_ok (g := (·.toSlot t.number) ∘ Prod.fst)
      fun p hp => ht.slot_eq (hr p.1 (List.fst_mem_of_mem_zipIdx hp)) _, ← List.map_map,
      List.zipIdx_map_fst]
    rfl
  | map entries =>
    simp only [hread, Object.children] at hr ⊢
    rw [mapM_eq_ok (g := fun e => (e.1, e.2.toSlot t.number)) fun e he => ?_]
    · rfl
    · rw [ht.slot_eq (hr e.2 (List.mem_map_of_mem he))]
      rfl

end ObjectTable

/-- In a graph without functions everything reachable has a slot. -/
lemma Heap.FunctionFree.hasSlot {h : Heap} {v w : Value} (hv : h.FunctionFree v)
    (hw : h.Reaches v w) : (ObjectTable.ofValue h v).HasSlot w := by
  refine ⟨?_, ?_⟩
  · intro f heq
    subst heq
    exact hv f hw
  · intro r heq
    subst heq
    exact ObjectTable.mem_order_ofValue.2 hw

/-- The wire form of a graph without functions: its objects in the order of their numbers, and in
them and at the root numbers for objects. -/
lemma Wire.encode_eq {h : Heap} {v : Value} (hv : h.FunctionFree v) :
    Wire.encode h v = .ok
      ⟨v.toSlot (ObjectTable.ofValue h v).number,
        (ObjectTable.ofValue h v).order.toList.map fun r =>
          (h.read r).toEntry (ObjectTable.ofValue h v).number⟩ := by
  have ht := ObjectTable.ofValue_coherent h v
  unfold Wire.encode
  dsimp only
  rw [mapM_eq_ok (g := (fun r => (h.read r).toEntry (ObjectTable.ofValue h v).number) ∘ Prod.fst)
    fun p hp => ?_, ← List.map_map, List.zipIdx_map_fst, ht.slot_eq (hv.hasSlot .refl)]
  · rfl
  · refine ht.entry_eq fun w hw => hv.hasSlot (Heap.Reaches.child ?_ hw)
    exact ObjectTable.mem_order_ofValue.1 (Array.mem_toList_iff.1 (List.fst_mem_of_mem_zipIdx hp))

namespace ObjectTable
variable {t : ObjectTable} {h : Heap}

lemma ne_function_of_slot {v : Value} {path : Unit → String} {s : Slot}
    (hs : t.slot v path = .ok s) (f : Function) : v ≠ .function f := by
  intro heq
  subst heq
  cases hs

lemma ne_function_of_entry {id r : ℕ} {o : WireObject} (ho : t.entry h id r = .ok o) :
    ∀ v ∈ (h.read r).children, ∀ f, v ≠ .function f := by
  intro v hv
  unfold entry at ho
  cases hread : h.read r with
  | list items =>
    simp only [hread, Object.children] at ho hv
    obtain ⟨slots, hslots, -⟩ := bind_eq_ok.1 ho
    rw [← List.zipIdx_map_fst 0 items] at hv
    obtain ⟨p, hp, rfl⟩ := List.mem_map.1 hv
    obtain ⟨s, hs⟩ := exists_of_mapM_eq_ok hslots p hp
    exact ne_function_of_slot hs
  | map entries =>
    simp only [hread, Object.children] at ho hv
    obtain ⟨es, hes, -⟩ := bind_eq_ok.1 ho
    obtain ⟨e, he, rfl⟩ := List.mem_map.1 hv
    obtain ⟨p, hp⟩ := exists_of_mapM_eq_ok hes e he
    obtain ⟨s, hs, -⟩ := bind_eq_ok.1 hp
    exact ne_function_of_slot hs

end ObjectTable

/-- What can be encoded holds no function. -/
lemma Wire.functionFree_of_encode {h : Heap} {v : Value} {w : Wire} (hw : Wire.encode h v = .ok w) :
    h.FunctionFree v := by
  unfold Wire.encode at hw
  obtain ⟨objects, hobjects, hw⟩ := bind_eq_ok.1 hw
  obtain ⟨root, hroot, -⟩ := bind_eq_ok.1 hw
  refine Heap.functionFree_iff.2 ⟨ObjectTable.ne_function_of_slot hroot, fun r hr => ?_⟩
  have hmem := Array.mem_toList_iff.2 (ObjectTable.mem_order_ofValue.2 hr)
  rw [← List.zipIdx_map_fst 0 (ObjectTable.ofValue h v).order.toList] at hmem
  obtain ⟨p, hp, rfl⟩ := List.mem_map.1 hmem
  obtain ⟨o, ho⟩ := exists_of_mapM_eq_ok hobjects p hp
  exact ObjectTable.ne_function_of_entry ho

/-! ## Decoding -/

/-- The value of a slot, where the table begins at a place of the heap. -/
def Slot.toValue (base : ℕ) : Slot → Value
  | .null => .null
  | .bool b => .bool b
  | .int k => .int k
  | .float x => .float x
  | .str s => .str s
  | .bytes bs => .bytes bs
  | .view bs => .view bs
  | .handle k => .handle k
  | .ref id => .object (base + id.toNat)

/-- The object of a table entry. -/
def WireObject.toObject (base : ℕ) : WireObject → Object
  | .list slots => .list (slots.map (·.toValue base))
  | .map entries => .map (Dict.ofList (entries.map fun e => (e.1, e.2.toValue base)))

/-- The slot refers to nothing beyond so many table entries. -/
def Slot.Below (count : ℕ) (s : Slot) : Prop :=
  ∀ id, s = .ref id → id.toNat < count

/-- All references of the wire form stay inside its table. -/
structure Wire.Closed (w : Wire) : Prop where
  root : w.root.Below w.objects.length
  slots : ∀ o ∈ w.objects, ∀ s ∈ o.slots, s.Below w.objects.length

namespace Wire
variable {base count : ℕ}

lemma resolve_eq {s : Slot} (hs : s.Below count) :
    resolve base count s = .ok (s.toValue base) := by
  cases s with
  | ref id => exact if_pos (hs id rfl)
  | _ => rfl

lemma object_eq {o : WireObject} (ho : ∀ s ∈ o.slots, s.Below count) :
    object base count o = .ok (o.toObject base) := by
  cases o with
  | list slots =>
    have hslots : slots.mapM (resolve base count) = .ok (slots.map (·.toValue base)) :=
      mapM_eq_ok fun s hs => resolve_eq (ho s hs)
    simp only [object, hslots]
    rfl
  | map entries =>
    simp only [object]
    rw [mapM_eq_ok (g := fun e => (e.1, e.2.toValue base)) fun e he => ?_]
    · rfl
    · rw [resolve_eq (ho e.2 (List.mem_map_of_mem he))]
      rfl

/-- The heap with the objects of a table after its own. -/
def extend (h : Heap) (w : Wire) : Heap :=
  { h with objects := h.objects ++ (w.objects.map (·.toObject h.size)).toArray }

/-- A closed table becomes objects at the end of the heap. -/
lemma decode_eq {h : Heap} {w : Wire} (hw : w.Closed) :
    decode h w = .ok (w.root.toValue h.size, extend h w) := by
  unfold decode
  dsimp only
  rw [mapM_eq_ok fun o ho => object_eq (hw.slots o ho), resolve_eq hw.root]
  rfl

lemma read_extend {h : Heap} {w : Wire} {i : ℕ} {o : WireObject} (hi : w.objects[i]? = some o) :
    (extend h w).read (h.size + i) = o.toObject h.size := by
  simp only [extend, Heap.read, Heap.size, Array.getD_eq_getD_getElem?]
  rw [Array.getElem?_append_right (Nat.le_add_right _ _), Nat.add_sub_cancel_left]
  simp [hi]

end Wire

/-! ## There and back -/

/-- Encoding and then decoding a value renames its object to the place of its number. -/
lemma Value.toValue_toSlot {n : ℕ → ℕ} {v : Value} (base : ℕ) (hfun : ∀ f, v ≠ .function f)
    (hn : ∀ r, v = .object r → n r < 2 ^ 32) :
    (v.toSlot n).toValue base = v.rename fun r => base + n r := by
  cases v with
  | object r =>
    simp only [Value.toSlot, Slot.toValue, Value.rename]
    rw [UInt32.toNat_ofNat', Nat.mod_eq_of_lt (hn r rfl)]
  | function f => exact absurd rfl (hfun f)
  | _ => rfl

lemma Object.toObject_toEntry {n : ℕ → ℕ} {o : Object} (base : ℕ)
    (hfun : ∀ v ∈ o.children, ∀ f, v ≠ .function f)
    (hn : ∀ r, .object r ∈ o.children → n r < 2 ^ 32) :
    (o.toEntry n).toObject base = o.rename fun r => base + n r := by
  have hslot : ∀ v ∈ o.children, (v.toSlot n).toValue base = v.rename fun r => base + n r :=
    fun v hv => Value.toValue_toSlot base (hfun v hv) fun r hr => hn r (hr ▸ hv)
  cases o with
  | list items =>
    simp only [Object.toEntry, WireObject.toObject, Object.rename, List.map_map]
    exact congrArg Object.list (List.map_congr_left hslot)
  | map entries =>
    simp only [Object.toEntry, WireObject.toObject, Object.rename, List.map_map]
    have hmap := Dict.ofList_map_entries (fun v => (v.toSlot n).toValue base) entries
    exact congrArg Object.map (hmap.trans (Dict.map_congr hslot))

namespace Wire
variable {h : Heap} {v : Value}

/-- Encoding writes references to table entries only. -/
lemma below_toSlot {w : Value} (hw : h.Reaches v w) :
    (w.toSlot (ObjectTable.ofValue h v).number).Below (ObjectTable.ofValue h v).order.size := by
  intro id hid
  cases w with
  | object r =>
    cases hid
    have hr := ObjectTable.mem_order_ofValue.2 hw
    have hlt := (ObjectTable.ofValue_coherent h v).number_lt hr
    rw [UInt32.toNat_ofNat']
    exact Nat.lt_of_le_of_lt (Nat.mod_le _ _) hlt
  | _ => cases hid

lemma closed_of_encode {w : Wire} (hv : h.FunctionFree v) (hw : encode h v = .ok w) : w.Closed := by
  rw [encode_eq hv] at hw
  cases hw
  constructor
  · simp only [List.length_map, Array.length_toList]
    exact below_toSlot .refl
  · intro o ho s hs
    simp only [List.length_map, Array.length_toList]
    obtain ⟨r, hr, rfl⟩ := List.mem_map.1 ho
    rw [Object.slots_toEntry] at hs
    obtain ⟨u, hu, rfl⟩ := List.mem_map.1 hs
    have hr := ObjectTable.mem_order_ofValue.1 (Array.mem_toList_iff.1 hr)
    exact below_toSlot (Heap.Reaches.child hr hu)

/-- What encoding gives can be decoded. -/
lemma exists_decode_of_encode {w : Wire} (hw : encode h v = .ok w) (h₀ : Heap) :
    ∃ v' h', decode h₀ w = .ok (v', h') :=
  ⟨_, _, decode_eq (closed_of_encode (functionFree_of_encode hw) hw)⟩

/-- A graph without functions and of at most `2 ^ 32` objects comes back, into whatever heap, as an
isomorphic graph. Its objects are fresh, and the heap keeps its own. -/
theorem decode_encode (hv : h.FunctionFree v) (hsize : (h.objectsFrom v).encard ≤ 2 ^ 32)
    (h₀ : Heap) : ∃ w v' h', encode h v = .ok w ∧ decode h₀ w = .ok (v', h') ∧
      IsomorphicVia (fun r => h₀.size + (ObjectTable.ofValue h v).number r) h v h' v' := by
  have ht := ObjectTable.ofValue_coherent h v
  have hmem : ∀ {r}, r ∈ h.objectsFrom v → r ∈ (ObjectTable.ofValue h v).order :=
    fun hr => ObjectTable.mem_order_ofValue.2 hr
  -- the numbers fit the 32 bits of a reference
  have hbound : ∀ {r}, r ∈ h.objectsFrom v → (ObjectTable.ofValue h v).number r < 2 ^ 32 := by
    intro r hr
    have hle : (ObjectTable.ofValue h v).order.size ≤ 2 ^ 32 := by
      rw [← ObjectTable.size_order_ofValue] at hsize
      exact_mod_cast hsize
    exact Nat.lt_of_lt_of_le (ht.number_lt (hmem hr)) hle
  have henc := encode_eq hv
  -- the object of number i lands i places after the end of the old heap
  refine ⟨_, _, _, henc, decode_eq (closed_of_encode hv henc), IsomorphicVia.of_injOn ?_ ?_ ?_⟩
  · intro r hr s hs heq
    exact ht.number_inj (hmem hr) (hmem hs) (Nat.add_left_cancel heq)
  · exact Value.toValue_toSlot h₀.size hv.ne fun r hr => hbound (hr ▸ .refl)
  · intro r hr
    have hentry := ht.getElem?_order (hmem hr)
    rw [read_extend (o := (h.read r).toEntry (ObjectTable.ofValue h v).number) (by simp [hentry])]
    exact Object.toObject_toEntry h₀.size (fun w hw => hv.child hr hw)
      fun s hs => hbound (Heap.Reaches.child hr hs)

/-- Encoding a graph without functions and of at most `2 ^ 32` objects succeeds, and decoding the
wire form gives an isomorphic graph. Two places hold one object after it exactly when they did
before. -/
theorem roundTrip_isomorphic (h : Heap) (v : Value) (h₀ : Heap) (hv : h.FunctionFree v)
    (hsize : (h.objectsFrom v).encard ≤ 2 ^ 32) :
    ∃ w v' h', encode h v = .ok w ∧ decode h₀ w = .ok (v', h') ∧ Isomorphic h v h' v' ∧
      ∀ p q, h.SameObject v p q ↔ h'.SameObject v' p q := by
  obtain ⟨w, v', h', henc, hdec, iso⟩ := decode_encode hv hsize h₀
  have iso : Isomorphic h v h' v' := ⟨_, iso⟩
  exact ⟨w, v', h', henc, hdec, iso, iso.sameObject_iff⟩

/-- A list that holds one map twice, beside a buffer and a NaN with a payload; the map holds the
list. -/
def sharedLoop : Heap :=
  ⟨#[.list [.object 1, .object 1, .bytes [7], .float ⟨0x7FF8000000000001⟩],
    .map (Dict.ofList [("back", .object 0), ("n", .int 3)])], 0⟩

lemma children_sharedLoop : (sharedLoop.read 0).children =
      [.object 1, .object 1, .bytes [7], .float ⟨0x7FF8000000000001⟩] ∧
    (sharedLoop.read 1).children = [.object 0, .int 3] := by
  decide

lemma objectsFrom_sharedLoop : sharedLoop.objectsFrom (.object 0) ⊆ {0, 1} := by
  apply Heap.objectsFrom_subset
  · intro r heq
    cases heq
    exact .inl rfl
  · intro r h s hs
    rcases h with rfl | rfl
    · rw [children_sharedLoop.1] at hs
      exact .inr (by simpa using hs)
    · rw [children_sharedLoop.2] at hs
      exact .inl (by simpa using hs)

lemma encard_objectsFrom_sharedLoop : (sharedLoop.objectsFrom (.object 0)).encard ≤ 2 ^ 32 := by
  refine (Set.encard_le_encard objectsFrom_sharedLoop).trans ?_
  rw [Set.encard_pair (by decide)]
  norm_num

lemma functionFree_sharedLoop : sharedLoop.FunctionFree (.object 0) := by
  rw [Heap.functionFree_iff]
  refine ⟨by simp, ?_⟩
  intro r hr w hw f heq
  subst heq
  rcases objectsFrom_sharedLoop hr with rfl | rfl
  · rw [children_sharedLoop.1] at hw
    simp at hw
  · rw [children_sharedLoop.2] at hw
    simp at hw

theorem roundTrip_isomorphic_sharedLoop :
    sharedLoop.FunctionFree (.object 0) ∧
      (sharedLoop.objectsFrom (.object 0)).encard ≤ 2 ^ 32 ∧
      ∃ w v' h', encode sharedLoop (.object 0) = .ok w ∧ decode .empty w = .ok (v', h') ∧
        Isomorphic sharedLoop (.object 0) h' v' ∧
        ∀ p q, sharedLoop.SameObject (.object 0) p q ↔ h'.SameObject v' p q :=
  ⟨functionFree_sharedLoop, encard_objectsFrom_sharedLoop,
    roundTrip_isomorphic sharedLoop (.object 0) .empty functionFree_sharedLoop
      encard_objectsFrom_sharedLoop⟩

end Wire
end WorkerHost
