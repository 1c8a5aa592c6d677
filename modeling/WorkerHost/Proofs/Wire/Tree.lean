import WorkerHost.Proofs.Value.Tree
import WorkerHost.Proofs.Wire.NormalForm
import WorkerHost.Proofs.Wire.Preorder

/-!
# Trees on the wire

`Document.wire` writes a document as a wire form without a heap: every array and object gets a table
entry, before those of its parts, and stands in its holder as the number of that entry. A value that
is a tree has the wire form of the document it is.

* `Heap.Unfolds.perm_references`: the objects of a tree are each referred to once;
* `Heap.Unfolds.preorder`: a depth-first walk takes the containers in their order;
* `Heap.Unfolds.encode`: a tree is encoded as its document is written.
-/

namespace WorkerHost

open Json

/-! ## Documents -/

mutual

/-- The slot of a document, and the table entries of its containers, numbered from `n` on. -/
def Json.Document.wire (n : ℕ) : Document → Slot × List WireObject
  | .null => (.null, [])
  | .bool b => (.bool b, [])
  | .num (.int k) => (.int (Int64.ofInt k), [])
  | .num (.float x) => (.float x, [])
  | .str s => (.str s, [])
  | .arr items =>
    let (slots, below) := wireItems (n + 1) items
    (.ref (UInt32.ofNat n), .list slots :: below)
  | .obj members =>
    let (entries, below) := wireMembers (n + 1) members
    (.ref (UInt32.ofNat n), .map entries :: below)

/-- The slots of the items of an array, and the table entries below them. -/
def Json.Document.wireItems (n : ℕ) : List Document → List Slot × List WireObject
  | [] => ([], [])
  | d :: rest =>
    let (slot, table) := d.wire n
    let (slots, tables) := wireItems (n + table.length) rest
    (slot :: slots, table ++ tables)

/-- The keyed slots of the members of an object, and the table entries below them. -/
def Json.Document.wireMembers (n : ℕ) :
    List (String × Document) → List (String × Slot) × List WireObject
  | [] => ([], [])
  | (k, d) :: rest =>
    let (slot, table) := d.wire n
    let (entries, tables) := wireMembers (n + table.length) rest
    ((k, slot) :: entries, table ++ tables)

end

lemma Json.Document.wire_arr (n : ℕ) (items : List Document) :
    (Document.arr items).wire n = (.ref (UInt32.ofNat n),
      .list (wireItems (n + 1) items).1 :: (wireItems (n + 1) items).2) := by
  rw [wire]

lemma Json.Document.wire_obj (n : ℕ) (members : List (String × Document)) :
    (Document.obj members).wire n = (.ref (UInt32.ofNat n),
      .map (wireMembers (n + 1) members).1 :: (wireMembers (n + 1) members).2) := by
  rw [wire]

/-- The members of an object are written as items, with their keys. -/
lemma Json.Document.wireMembers_eq (n : ℕ) (members : List (String × Document)) :
    wireMembers n members =
      ((members.map (·.1)).zip (wireItems n (members.map (·.2))).1,
        (wireItems n (members.map (·.2))).2) := by
  induction members generalizing n with
  | nil => rfl
  | cons m members ih => simp only [wireMembers, ih, List.map_cons, wireItems, List.zip_cons_cons]

namespace Preorder
variable {next : ℕ → List ℕ} {seen mid out upper lower : List ℕ}

/-- Walks over two stacks one after another are one walk. -/
lemma append (hupper : Preorder next seen upper mid) (hlower : Preorder next mid lower out) :
    Preorder next seen (upper ++ lower) out := by
  induction hupper with
  | done seen => exact hlower
  | again hi _ ih => exact .again hi (ih hlower)
  | first hi hbelow _ _ ih => exact .first hi hbelow (ih hlower)

end Preorder

namespace Heap.Unfolds
variable {h : Heap} {v : Value} {d : Document} {rs : List ℕ}

lemma ref?_eq_none_of_scalar (hv : v.scalar?.isSome) : v.ref? = none := by
  cases v <;> first | rfl | cases hv

lemma next_eq {r : ℕ} {bs : List Branch} (hchildren : (h.read r).children = bs.map (·.value)) :
    h.next r = bs.flatMap (·.value.ref?.toList) := by
  rw [next, hchildren, List.filterMap_map, List.filterMap_eq_flatMap_toList]
  rfl

/-! ## References -/

/-- The reference to the root and those in the objects are the objects, each once. -/
theorem perm_references (hu : h.Unfolds v d rs) :
    (v.ref?.toList ++ rs.flatMap h.next).Perm rs := by
  refine hu.induction_objects (motive := fun v rs => (v.ref?.toList ++ rs.flatMap h.next).Perm rs)
    (fun v hv => by rw [ref?_eq_none_of_scalar hv]; exact .refl _) ?_
  intro r bs hchildren _ ih
  have hbelow : (bs.flatMap (·.value.ref?.toList) ++
      (bs.flatMap (·.objects)).flatMap h.next).Perm (bs.flatMap (·.objects)) := by
    rw [List.flatMap_assoc]
    refine (List.flatMap_append_perm bs _ _).trans ?_
    exact List.Perm.flatMap_left bs ih
  rw [List.flatMap_cons, next_eq hchildren]
  exact hbelow.cons r

/-! ## Walks -/

/-- Walks from branch to branch are one walk. -/
lemma preorder_branches {bs : List Branch}
    (hbs : ∀ b ∈ bs, ∀ seen : List ℕ, (seen ++ b.objects).Nodup →
      Preorder h.next seen b.value.ref?.toList (seen ++ b.objects))
    {seen : List ℕ} (hnodup : (seen ++ bs.flatMap (·.objects)).Nodup) :
    Preorder h.next seen (bs.flatMap (·.value.ref?.toList)) (seen ++ bs.flatMap (·.objects)) := by
  induction bs generalizing seen with
  | nil =>
    rw [List.flatMap_nil, List.flatMap_nil, List.append_nil]
    exact .done seen
  | cons b bs ih =>
    simp only [List.flatMap_cons, ← List.append_assoc] at hnodup ⊢
    have hfirst := hbs b List.mem_cons_self seen (List.nodup_append.1 hnodup).1
    exact hfirst.append (ih (fun c hc => hbs c (List.mem_cons_of_mem _ hc)) hnodup)

/-- A depth-first walk takes the containers of a tree in their order. -/
theorem preorder (hu : h.Unfolds v d rs) {seen : List ℕ} (hnodup : (seen ++ rs).Nodup) :
    Preorder h.next seen v.ref?.toList (seen ++ rs) := by
  refine hu.induction_objects (motive := fun v rs => ∀ seen : List ℕ, (seen ++ rs).Nodup →
    Preorder h.next seen v.ref?.toList (seen ++ rs)) ?_ ?_ seen hnodup
  · intro v hv seen _
    rw [ref?_eq_none_of_scalar hv, List.append_nil]
    exact .done seen
  · intro r bs hchildren _ ih seen hnodup
    have hnew : r ∉ seen := fun hr =>
      (List.nodup_append.1 hnodup).2.2 r hr r List.mem_cons_self rfl
    rw [List.append_cons] at hnodup ⊢
    refine .first hnew ?_ (.done _)
    rw [next_eq hchildren]
    exact preorder_branches ih hnodup

/-- The encoder numbers the containers of a tree in their order. -/
lemma order_ofValue (hu : h.Unfolds v d rs) (hnodup : rs.Nodup) :
    (ObjectTable.ofValue h v).order.toList = rs := by
  have hwalk : Preorder h.next [] v.ref?.toList ([] ++ rs) := hu.preorder hnodup
  exact (ObjectTable.preorder_ofValue h v).unique hwalk

lemma number_ofValue (hu : h.Unfolds v d rs) (hnodup : rs.Nodup) {r : ℕ} (hr : r ∈ rs) :
    (ObjectTable.ofValue h v).number r = rs.idxOf r := by
  have horder := hu.order_ofValue hnodup
  have hmem : r ∈ (ObjectTable.ofValue h v).order := by
    rw [← Array.mem_toList_iff, horder]
    exact hr
  have hidx := (ObjectTable.ofValue_coherent h v).idxOf_map_order (g := id)
    (by rwa [List.map_id, horder]) hmem
  rw [List.map_id, horder] at hidx
  exact hidx.symm

/-! ## Encoding -/

/-- The objects are numbered from `start` on. -/
def NumberedFrom (n : ℕ → ℕ) (start : ℕ) (rs : List ℕ) : Prop :=
  rs.map n = List.range' start rs.length

/-- With the containers numbered from `start` on, the branch is encoded as its document is written.
-/
def Written (h : Heap) (n : ℕ → ℕ) (start : ℕ) (b : Branch) : Prop :=
  b.value.toSlot n = (b.document.wire start).1 ∧
    b.objects.map (fun r => (h.read r).toEntry n) = (b.document.wire start).2

lemma NumberedFrom.append {n : ℕ → ℕ} {start : ℕ} {rs ss : List ℕ} :
    NumberedFrom n start (rs ++ ss) ↔
      NumberedFrom n start rs ∧ NumberedFrom n (start + rs.length) ss := by
  unfold NumberedFrom
  rw [List.map_append, List.length_append, ← List.range'_append_1]
  exact List.append_eq_append_iff_of_size_eq_left (by simp)

lemma written_items {n : ℕ → ℕ} {bs : List Branch}
    (hbs : ∀ b ∈ bs, ∀ start, NumberedFrom n start b.objects → Written h n start b) {start : ℕ}
    (hn : NumberedFrom n start (bs.flatMap (·.objects))) :
    bs.map (·.value.toSlot n) = (Document.wireItems start (bs.map (·.document))).1 ∧
      (bs.flatMap (·.objects)).map (fun r => (h.read r).toEntry n) =
        (Document.wireItems start (bs.map (·.document))).2 := by
  induction bs generalizing start with
  | nil => exact ⟨rfl, rfl⟩
  | cons b bs ih =>
    obtain ⟨hb, hrest⟩ := NumberedFrom.append.1 hn
    obtain ⟨hslot, htable⟩ := hbs b List.mem_cons_self start hb
    have hlength : (b.document.wire start).2.length = b.objects.length := by
      rw [← htable, List.length_map]
    obtain ⟨hslots, htables⟩ := ih (fun c hc => hbs c (List.mem_cons_of_mem _ hc)) hrest
    simp only [List.map_cons, List.flatMap_cons, List.map_append, Document.wireItems, hlength]
    exact ⟨by rw [hslot, hslots], by rw [htable, htables]⟩

lemma wire_of_scalar {n : ℕ → ℕ} (hv : v.scalar? = some d) (start : ℕ) :
    d.wire start = (v.toSlot n, []) := by
  cases v <;> cases hv <;> first | rfl | skip
  rw [Document.wire, Int64.ofInt_toInt]
  rfl

/-- A tree with its containers numbered one after another is encoded as its document is written. -/
lemma written (hu : h.Unfolds v d rs) {n : ℕ → ℕ} {start : ℕ} (hn : NumberedFrom n start rs) :
    Written h n start ⟨v, d, rs⟩ := by
  induction hu generalizing start with
  | scalar hv =>
    rw [Written, wire_of_scalar (n := n) hv]
    exact ⟨rfl, rfl⟩
  | @list r bs hread _ ih =>
    obtain ⟨hr, hbelow⟩ := List.cons.inj hn
    obtain ⟨hslots, htable⟩ := written_items (fun b hb _ => ih b hb) hbelow
    rw [Written, Document.wire_arr, List.map_cons, hread, htable, ← hslots, Value.toSlot, hr,
      Object.toEntry, List.map_map]
    exact ⟨rfl, rfl⟩
  | @map r bs hread _ ih =>
    obtain ⟨hr, hbelow⟩ := List.cons.inj hn
    obtain ⟨hslots, htable⟩ := written_items (fun b hb _ => ih b hb) hbelow
    have hdocuments : (bs.map (·.document)).entries.map (·.2) = bs.values.map (·.document) :=
      Dict.values_map _ bs
    rw [Written, Document.wire_obj, Document.wireMembers_eq, hdocuments, List.map_cons, hread,
      htable, ← hslots, Value.toSlot, hr, Dict.entries_map, List.map_map, Dict.values, List.map_map,
      List.zip_map', Object.toEntry, Dict.entries_map, List.map_map, List.map_map]
    exact ⟨rfl, rfl⟩

lemma numberedFrom_idxOf (hnodup : rs.Nodup) : NumberedFrom rs.idxOf 0 rs := by
  refine List.ext_getElem (by simp) fun i hi _ => ?_
  rw [List.getElem_map, hnodup.idxOf_getElem, List.getElem_range']
  simp

/-- The document of a tree has a table entry for every container. -/
lemma length_wire (hu : h.Unfolds v d rs) (hnodup : rs.Nodup) :
    (d.wire 0).2.length = rs.length := by
  rw [← (hu.written (numberedFrom_idxOf hnodup)).2, List.length_map]

/-- A tree is encoded as its document is written. -/
theorem encode (hu : h.Unfolds v d rs) (hnodup : rs.Nodup) :
    Wire.encode h v = .ok ⟨(d.wire 0).1, (d.wire 0).2⟩ := by
  have hnumbered : NumberedFrom (ObjectTable.ofValue h v).number 0 rs := by
    rw [NumberedFrom, List.map_congr_left fun r hr => hu.number_ofValue hnodup hr]
    exact numberedFrom_idxOf hnodup
  obtain ⟨hslot, htable⟩ := hu.written hnumbered
  rw [Wire.encode_eq hu.functionFree, hu.order_ofValue hnodup]
  exact congrArg Except.ok (congrArg₂ Wire.mk hslot htable)

example : (Document.arr [.arr [], .null, .obj [("k", .arr [])]]).wire 0 =
    (.ref 0, [.list [.ref 1, .null, .ref 2], .list [], .map [("k", .ref 3)], .list []]) := by
  rfl

end Heap.Unfolds
end WorkerHost
