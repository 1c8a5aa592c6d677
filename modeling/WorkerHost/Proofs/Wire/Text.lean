import WorkerHost.Proofs.Json.Decoder
import WorkerHost.Proofs.Json.Held
import WorkerHost.Proofs.Wire.Quiet

/-!
# The text of a wire form

`Wire.reads`: the text of a wire form is read back as that wire form, with the quiet NaN in the
place of any other. Of the text of a finite float it is assumed that it is read back as that
float.

The object table is flat, so the text of a wire form nests seven deep however deep the value does:
`Wire.nested`. The lemmas about nesting are stated of any property of numbers, to be used once with
none, for the nesting alone, and once with the property of being read back.
-/

namespace WorkerHost

open Json

section
open Json.Decoder

/-- Every float of the slot is read back from its text. -/
def Slot.ReadsBack (s : Slot) : Prop :=
  ∀ x, s = .float x → Json.ReadsBack x

/-- Every float of the wire form is read back from its text. -/
structure Wire.ReadsBack (w : Wire) : Prop where
  root : w.root.ReadsBack
  slots : ∀ o ∈ w.objects, ∀ s ∈ o.slots, s.ReadsBack

/-- A wire form has the floats of its value. -/
lemma Wire.readsBack_of_encode {h : Heap} {v : Value} {w : Wire} (hw : encode h v = .ok w)
    (hfloats : ∀ x, h.Reaches v (.float x) → Json.ReadsBack x) : w.ReadsBack := by
  have hslot : ∀ (n : ℕ → ℕ) (u : Value), h.Reaches v u → (u.toSlot n).ReadsBack := by
    intro n u hu x hx
    cases u <;> cases hx
    exact hfloats x hu
  rw [encode_eq (functionFree_of_encode hw)] at hw
  cases hw
  constructor
  · exact hslot _ v .refl
  · intro o ho s hs
    obtain ⟨r, hr, rfl⟩ := List.mem_map.1 ho
    rw [Object.slots_toEntry] at hs
    obtain ⟨u, hu, rfl⟩ := List.mem_map.1 hs
    have hr := ObjectTable.mem_order_ofValue.1 (Array.mem_toList_iff.1 hr)
    exact hslot _ u (Heap.Reaches.child hr hu)

/-- Bytes are read back. -/
lemma reads_bytesDocument (bs : List UInt8) :
    (Decoder.list .uint8).Reads 1 (bytesDocument bs) bs := by
  have h := Reads.list bs (d := .uint8) (n := 0) (f := fun b => .num (.int b.toNat))
    (g := fun b => b) fun b _ => Reads.uint8 b
  rwa [List.map_id'] at h

/-- A float is read back, a NaN as the quiet one. -/
lemma reads_floatDocument {x : Binary64} (h : Json.ReadsBack x) (n : ℕ) :
    (Decoder.any.mapOption floatOfDocument?).Reads n (floatDocument x) x.quiet := by
  unfold floatDocument
  split
  · next hx =>
    rw [Binary64.quiet_of_isFinite hx]
    exact (Reads.any_num (Reader.numeral_float h hx)).mapOption rfl
  · next hx =>
    split
    · next hnan =>
      rw [Binary64.quiet, if_pos hnan]
      exact (Reads.any_str "nan").mapOption rfl
    · next hnan =>
      have hinf := Binary64.eq_infinity (by simpa using hx) (by simpa using hnan)
      rw [Binary64.quiet, if_neg hnan]
      split
      · next hneg =>
        rw [hneg] at hinf
        rw [hinf]
        exact (Reads.any_str "-inf").mapOption rfl
      · next hneg =>
        rw [show x.isNegative = false by simpa using hneg] at hinf
        rw [hinf]
        exact (Reads.any_str "inf").mapOption rfl

/-- A slot is read back. -/
lemma Slot.reads {s : Slot} (h : s.ReadsBack) : Slot.decoder.Reads 2 s.document s.quiet := by
  cases s with
  | null => exact (Reads.bare rfl rfl).mono (by decide)
  | bool b => exact Reads.tagged (by decide) rfl ((Reads.bool b).map Slot.bool)
  | int n => exact Reads.tagged (by decide) rfl ((Reads.int64 n).map Slot.int)
  | float x => exact Reads.tagged (by decide) rfl ((reads_floatDocument (h x rfl) 1).map Slot.float)
  | str s => exact Reads.tagged (by decide) rfl ((Reads.string s).map Slot.str)
  | bytes bs => exact Reads.tagged (by decide) rfl ((reads_bytesDocument bs).map Slot.bytes)
  | view bs => exact Reads.tagged (by decide) rfl ((reads_bytesDocument bs).map Slot.view)
  | handle k =>
    exact Reads.tagged (by decide) rfl ((Reads.uint64 k.id).map fun n => Slot.handle ⟨n⟩)
  | ref id => exact Reads.tagged (by decide) rfl ((Reads.uint32 id).map Slot.ref)

/-- A table entry is read back. -/
lemma WireObject.reads {o : WireObject} (h : ∀ s ∈ o.slots, s.ReadsBack) :
    WireObject.decoder.Reads 5 o.document o.quiet := by
  cases o with
  | list slots =>
    have hslots := Reads.list slots (f := Slot.document) (g := Slot.quiet)
      fun s hs => Slot.reads (h s hs)
    exact (Reads.tagged (by decide) rfl (hslots.map WireObject.list)).mono (by decide)
  | map entries =>
    have hentries := Reads.list entries (d := .pair .string Slot.decoder) (n := 3)
      (f := fun e => .arr [.str e.1, e.2.document]) (g := fun e => (e.1, e.2.quiet)) fun e he =>
        Reads.pair (Reads.string e.1) (Slot.reads (h e.2 (List.mem_map_of_mem he)))
    exact Reads.tagged (by decide) rfl (hentries.map WireObject.map)

/-- A wire form is read back. -/
lemma Wire.reads {w : Wire} (h : w.ReadsBack) : Wire.decoder.Reads 7 w.document w.quiet := by
  have hroot := (Slot.reads h.root).mono (show 2 ≤ 6 by decide)
  have hobjects := Reads.list w.objects (f := WireObject.document) (g := WireObject.quiet)
    fun o ho => WireObject.reads (h.slots o ho)
  let fromFields (p : Slot × Option (List WireObject)) : Wire := ⟨p.1, p.2.getD []⟩
  unfold document
  split
  · next hempty =>
    have hrecord : (recordOptional "root" Slot.decoder "objects" (.list WireObject.decoder)).Reads 7
        (.obj [("root", w.root.document)]) (w.root.quiet, none) :=
      Reads.recordOptional_none hroot
    have hquiet : w.quiet = fromFields (w.root.quiet, none) := by
      rw [quiet, List.isEmpty_iff.1 hempty]
      rfl
    rw [hquiet]
    exact hrecord.map fromFields
  · have hrecord : (recordOptional "root" Slot.decoder "objects" (.list WireObject.decoder)).Reads 7
        (.obj [("root", w.root.document), ("objects", .arr (w.objects.map WireObject.document))])
        (w.root.quiet, some (w.objects.map WireObject.quiet)) :=
      Reads.recordOptional_some (by decide) hroot hobjects
    exact hrecord.map fromFields

end

/-! ## How deep the text nests -/

section
open Json.Document
variable {P : Number → Prop}

/-- The finite floats of the slot have the property. -/
def Slot.FloatsAre (P : Number → Prop) (s : Slot) : Prop :=
  ∀ x, s = .float x → x.isFinite = true → P (.float x)

/-- The finite floats of the wire form have the property. -/
structure Wire.FloatsAre (P : Number → Prop) (w : Wire) : Prop where
  root : w.root.FloatsAre P
  slots : ∀ o ∈ w.objects, ∀ s ∈ o.slots, s.FloatsAre P

/-- The integers that JSON knows have the property. -/
def IntegersAre (P : Number → Prop) : Prop :=
  ∀ i : ℤ, -2 ^ 63 ≤ i → i < 2 ^ 64 → P (.int i)

lemma Slot.ReadsBack.floatsAre {s : Slot} (h : s.ReadsBack) :
    s.FloatsAre fun x => Reader.Numeral x.write x :=
  fun x hx hfinite => Reader.numeral_float (h x hx) hfinite

lemma Wire.ReadsBack.floatsAre {w : Wire} (h : w.ReadsBack) :
    w.FloatsAre fun x => Reader.Numeral x.write x :=
  ⟨h.root.floatsAre, fun o ho s hs => Slot.ReadsBack.floatsAre (h.slots o ho s hs)⟩

lemma integersAre_numeral : IntegersAre fun x => Reader.Numeral x.write x :=
  fun _ hlow hhigh => Reader.numeral_int hlow hhigh

/-! ## Tagged values -/

lemma nested_tagged (tagKey tag contentKey : String) {n : ℕ} {content : Option Document}
    (h : ∀ d, content = some d → d.Nested P n) :
    (taggedDocument tagKey tag contentKey content).Nested P (n + 1) := by
  refine .obj fun m hm => ?_
  rcases List.mem_cons.1 hm with rfl | hm
  · exact .str n tag
  · cases content with
    | none => cases hm
    | some d =>
      rw [List.mem_singleton.1 hm]
      exact h d rfl

lemma nested_tagged_some (tagKey tag contentKey : String) {n : ℕ} {d : Document}
    (h : d.Nested P n) : (taggedDocument tagKey tag contentKey (some d)).Nested P (n + 1) :=
  nested_tagged tagKey tag contentKey fun _ hd => Option.some.inj hd ▸ h

variable (hP : IntegersAre P)
include hP

lemma IntegersAre.nat {n : ℕ} (hn : n < 2 ^ 64) (k : ℕ) :
    (Document.num (.int n)).Nested P k :=
  .num k (hP n (by omega) (by omega))

lemma nested_bytesDocument (bs : List UInt8) : (bytesDocument bs).Nested P 1 := by
  refine .arr fun d hd => ?_
  obtain ⟨b, -, rfl⟩ := List.mem_map.1 hd
  exact hP.nat (Nat.lt_trans b.toNat_lt (by decide)) 0

lemma Slot.nested {s : Slot} (h : s.FloatsAre P) : s.document.Nested P 2 := by
  cases s with
  | null => exact nested_tagged "t" "null" "v" (by simp)
  | bool b => exact nested_tagged_some "t" "bool" "v" (.bool 1 b)
  | int n =>
    have := n.le_toInt
    have := n.toInt_lt
    exact nested_tagged_some "t" "int" "v" (.num 1 (hP _ (by omega) (by omega)))
  | float x =>
    refine nested_tagged_some "t" "float" "v" ?_
    unfold floatDocument
    split
    · next hx => exact .num 1 (h x rfl hx)
    · split
      · exact .str 1 "nan"
      · split
        · exact .str 1 "-inf"
        · exact .str 1 "inf"
  | str s => exact nested_tagged_some "t" "str" "v" (.str 1 s)
  | bytes bs => exact nested_tagged_some "t" "bytes" "v" (nested_bytesDocument hP bs)
  | view bs => exact nested_tagged_some "t" "view" "v" (nested_bytesDocument hP bs)
  | handle k => exact nested_tagged_some "t" "handle" "v" (hP.nat k.id.toNat_lt 1)
  | ref id =>
    exact nested_tagged_some "t" "ref" "v" (hP.nat (Nat.lt_trans id.toNat_lt (by decide)) 1)

lemma WireObject.nested {o : WireObject} (h : ∀ s ∈ o.slots, s.FloatsAre P) :
    o.document.Nested P 5 := by
  cases o with
  | list slots =>
    refine nested_tagged_some "t" "list" "v" (.arr fun d hd => ?_)
    obtain ⟨s, hs, rfl⟩ := List.mem_map.1 hd
    exact (Slot.nested hP (h s hs)).mono (by decide)
  | map entries =>
    refine nested_tagged_some "t" "map" "v" (.arr fun d hd => ?_)
    obtain ⟨e, he, rfl⟩ := List.mem_map.1 hd
    -- an entry is written as the pair of its key and its slot
    refine .arr fun d hd => ?_
    rcases List.mem_pair.1 hd with rfl | rfl
    · exact .str 2 e.1
    · exact Slot.nested hP (h e.2 (List.mem_map_of_mem he))

/-- The text of a wire form nests seven deep at most. -/
theorem Wire.nested {w : Wire} (h : w.FloatsAre P) : w.document.Nested P 7 := by
  refine .obj fun m hm => ?_
  rcases List.mem_cons.1 hm with rfl | hm
  · exact (Slot.nested hP h.root).mono (by decide)
  · split at hm
    · cases hm
    · rw [List.mem_singleton.1 hm]
      refine .arr fun d hd => ?_
      obtain ⟨o, ho, rfl⟩ := List.mem_map.1 hd
      exact WireObject.nested hP (h.slots o ho)

end
end WorkerHost
