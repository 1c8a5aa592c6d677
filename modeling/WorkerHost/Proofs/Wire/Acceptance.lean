import WorkerHost.Proofs.Wire.Edits
import WorkerHost.Proofs.Wire.Placement

/-!
# Which wire forms are decoded

A wire form is decoded if no reference in it leads beyond its table, whether or not the reference
can be reached from the root and whether or not a later entry for its key takes its place.
`Wire.refs` has all references in the order in which they are looked up.

* `Wire.failure?_decode`: the first reference that dangles is the failure;
* `Wire.decodedAt_of_decode`: what is decoded otherwise, described from the table alone;
* `Wire.decode_accepts_closed`: exactly the wire forms without dangling references are decoded.
-/

namespace WorkerHost

/-! ## References -/

/-- The number of the table entry that a slot refers to. -/
def Slot.id? : Slot → Option UInt32
  | .ref id => some id
  | _ => none

/-- The references of an entry in the order of its slots, also under a key that comes again. -/
def WireObject.refs (o : WireObject) : List UInt32 :=
  o.slots.filterMap Slot.id?

namespace Wire

/-- All references of a wire form: those of the table entries in their order, then the root. -/
def refs (w : Wire) : List UInt32 :=
  w.objects.flatMap WireObject.refs ++ w.root.id?.toList

/-! ## Failures -/

/-- The failure for the first reference that leads beyond so many table entries. -/
def firstDangling (count : ℕ) (ids : List UInt32) : Option CodecError :=
  (ids.find? fun id => count ≤ id.toNat).map .danglingRef

variable {base count : ℕ} {h h' : Heap} {w : Wire} {v : Value}

lemma firstDangling_append (ids ids' : List UInt32) :
    firstDangling count (ids ++ ids') =
      (firstDangling count ids).or (firstDangling count ids') := by
  rw [firstDangling, List.find?_append, Option.map_or]
  rfl

lemma firstDangling_flatMap {α : Type} (f : α → List UInt32) (l : List α) :
    firstDangling count (l.flatMap f) = l.findSome? fun a => firstDangling count (f a) := by
  rw [firstDangling, List.find?_flatMap, List.map_findSome?]
  rfl

lemma failure?_resolve (base count : ℕ) (s : Slot) :
    failure? (resolve base count s) = firstDangling count s.id?.toList := by
  cases s with
  | ref id =>
    by_cases hid : id.toNat < count
    · simp [resolve, failure?, hid, Slot.id?, firstDangling, Nat.not_le.2 hid]
    · simp [resolve, failure?, hid, Slot.id?, firstDangling, Nat.le_of_not_lt hid]
  | _ => rfl

lemma failure?_object (base count : ℕ) (o : WireObject) :
    failure? (object base count o) = firstDangling count o.refs := by
  have hrefs : o.refs = o.slots.flatMap fun s => s.id?.toList :=
    List.filterMap_eq_flatMap_toList _ _
  rw [hrefs, firstDangling_flatMap]
  cases o with
  | list slots =>
    rw [object, failure?_bind (e := none) fun _ => rfl, Option.or_none,
      failure?_mapM fun s _ => failure?_resolve base count s]
    rfl
  | map entries =>
    have hentry (e : String × Slot) : failure? (do return (e.1, ← resolve base count e.2) :
        Except CodecError (String × Value)) = firstDangling count e.2.id?.toList := by
      rw [failure?_bind (e := none) fun _ => rfl, Option.or_none, failure?_resolve]
    rw [object, failure?_bind (e := none) fun _ => rfl, Option.or_none,
      failure?_mapM fun e _ => hentry e, WireObject.slots, List.findSome?_map]
    rfl

/-- Decoding fails with the first reference that leads beyond the table. -/
lemma failure?_decode (h : Heap) (w : Wire) :
    failure? (decode h w) = firstDangling w.objects.length w.refs := by
  have hroot (objects : List Object) :
      failure? (do return (← resolve h.size w.objects.length w.root,
          { h with objects := h.objects ++ objects.toArray }) :
        Except CodecError (Value × Heap)) = firstDangling w.objects.length w.root.id?.toList := by
    rw [failure?_bind (e := none) fun _ => rfl, Option.or_none, failure?_resolve]
  unfold decode
  dsimp only
  rw [failure?_bind hroot, failure?_mapM fun o _ => failure?_object _ _ o, refs,
    firstDangling_append, firstDangling_flatMap]

lemma decode_eq_error_iff {e : CodecError} : decode h w = .error e ↔
    ∃ id, w.refs.find? (fun id => w.objects.length ≤ id.toNat) = some id ∧ e = .danglingRef id := by
  rw [← failure?_eq_some_iff, failure?_decode, firstDangling, Option.map_eq_some_iff]
  simp only [eq_comm]

/-- A wire form is decoded if all its references stay inside its table. -/
lemma exists_decode_iff :
    (∃ v h', decode h w = .ok (v, h')) ↔ ∀ id ∈ w.refs, id.toNat < w.objects.length := by
  have hok : (∃ v h', decode h w = .ok (v, h')) ↔ failure? (decode h w) = none := by
    rw [failure?_eq_none_iff, Prod.exists]
  rw [hok, failure?_decode, firstDangling, Option.map_eq_none_iff, List.find?_eq_none]
  simp only [decide_eq_true_eq, Nat.not_le]

end Wire

/-! ## What is decoded -/

/-- The value of a slot, where the objects of the table are at the given places. -/
def Slot.valueAt (place : ℕ → ℕ) : Slot → Value
  | .null => .null
  | .bool b => .bool b
  | .int k => .int k
  | .float x => .float x
  | .str s => .str s
  | .bytes bs => .bytes bs
  | .view bs => .view bs
  | .handle k => .handle k
  | .ref id => .object (place id.toNat)

lemma Slot.toValue_eq_valueAt (base : ℕ) : toValue base = valueAt (base + ·) := by
  funext s
  cases s <;> rfl

/-- The object has the values of the slots of the entry: a list in their order, a map under their
keys, where the last slot for a key counts. -/
def WireObject.Fills (value : Slot → Value) : WireObject → Object → Prop
  | .list slots, .list items => items = slots.map value
  | .map entries, .map d => ∀ k, d.get? k = (entries.findRev? (·.1 == k)).map fun e => value e.2
  | _, _ => False

lemma WireObject.fills_toObject (base : ℕ) (o : WireObject) :
    o.Fills (Slot.valueAt (base + ·)) (o.toObject base) := by
  rw [← Slot.toValue_eq_valueAt]
  cases o with
  | list slots => rfl
  | map entries =>
    intro k
    rw [Dict.get?_ofList, List.findRev?_eq_find?_reverse, List.findRev?_eq_find?_reverse,
      ← List.map_reverse, List.find?_map, Option.map_map]
    rfl

namespace Wire
variable {h h' : Heap} {w : Wire} {v : Value}

/-- What a wire form is decoded to: among fresh objects, one of its own for every table entry, each
filled with the values of the slots of its entry. The heap keeps its own objects as they are. -/
structure DecodedAt (place : ℕ → ℕ) (h : Heap) (w : Wire) (v : Value) (h' : Heap) : Prop where
  root : v = w.root.valueAt place
  contents : ∀ i o, w.objects[i]? = some o →
    WireObject.Fills (Slot.valueAt place) o (h'.read (place i))
  /-- references to one entry give one object, references to different entries different objects -/
  injOn : Set.InjOn place (Set.Iio w.objects.length)
  fresh : ∀ i < w.objects.length, h.size ≤ place i ∧ place i < h'.size
  size : h'.size = h.size + w.objects.length
  kept : ∀ r < h.size, h'.read r = h.read r

/-- Decoding puts the objects of the table behind those of the heap. -/
lemma decodedAt_of_decode (hdecode : decode h w = .ok (v, h')) :
    DecodedAt (h.size + ·) h w v h' := by
  have hkept (r : ℕ) (hr : r < h.size) := read_of_decode hdecode hr
  rw [decode_eq (closed_of_decode hdecode)] at hdecode
  cases hdecode
  have hsize : (extend h w).size = h.size + w.objects.length := size_extend h w
  refine ⟨congrFun (Slot.toValue_eq_valueAt _) _, ?_, (add_right_injective h.size).injOn, ?_, hsize,
    hkept⟩
  · intro i o hi
    rw [read_extend hi]
    exact o.fills_toObject h.size
  · intro i hi
    rw [hsize]
    omega

/-- Exactly the closed wire forms are decoded. If a reference leads beyond the table, decoding fails
with the first that does. If none does, every table entry becomes an object of its own, with the
values of its slots. -/
theorem decode_accepts_closed (h : Heap) (w : Wire) :
    ((∃ v h', decode h w = .ok (v, h')) ↔ ∀ id ∈ w.refs, id.toNat < w.objects.length) ∧
    (∀ e, decode h w = .error e ↔
      ∃ id, w.refs.find? (fun id => w.objects.length ≤ id.toNat) = some id ∧ e = .danglingRef id) ∧
    ∀ v h', decode h w = .ok (v, h') → ∃ place, DecodedAt place h w v h' :=
  ⟨exists_decode_iff, fun _ => decode_eq_error_iff, fun _ _ hdecode =>
    ⟨_, decodedAt_of_decode hdecode⟩⟩

/-- The references that lead beyond the table are that of an overwritten key, in an entry that
nothing refers to, and the root. -/
def dangling : Wire :=
  ⟨.ref 9, [.list [], .map [("k", .ref 7), ("k", .ref 0)]]⟩

theorem decode_accepts_closed_dangling :
    decode sharedLoop untidy = .ok (.object 5, extend sharedLoop untidy) ∧
      (∃ place, DecodedAt place sharedLoop untidy (.object 5) (extend sharedLoop untidy)) ∧
      decode sharedLoop dangling = .error (.danglingRef 7) := by
  have hdecode : decode sharedLoop untidy = .ok (.object 5, extend sharedLoop untidy) := rfl
  exact ⟨hdecode, (decode_accepts_closed sharedLoop untidy).2.2 _ _ hdecode,
    ((decode_accepts_closed sharedLoop dangling).2.1 _).2 ⟨7, by decide, rfl⟩⟩

end Wire
end WorkerHost
