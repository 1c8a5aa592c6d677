import WorkerHost.Hooks.Registry
import WorkerHost.Proofs.Channel.MessageText
import WorkerHost.Proofs.Json.Held
import WorkerHost.Proofs.Storage.Record

/-!
# The JSON formats

The four formats of the program are read back from the texts written for them, for all their values;
`formats_read_write` puts them together. The text keeps no payload of a NaN, which `quiet` says, and
of the text of a finite float it is assumed that it is read back as that float.

* `Wire.read_write`, `StoredValue.read_write`, `Message.read_write`, `WorkerCode.read_write`;
* `StoredValue.nesting_le` and its like: no text nests as deep as the reader goes;
* `Wire.decodeJson_encodeJson`: so values of any depth go through a text.
-/

namespace WorkerHost

open Json

/-! ## The text of shipped code -/

namespace WorkerCode
open Json.Decoder Json.Document

lemma reads (c : WorkerCode) : decoder.Reads 4 c.document c := by
  have hphase : ∀ e : Phase × List String,
      (Decoder.pair (.enumeration Phase.ofText?) (.list .string)).Reads 2
        (.arr [.str e.1.text, .arr (e.2.map .str)]) e := by
    intro e
    have hfragments := Reads.list e.2 (n := 0) (g := fun s => s) fun s _ => Reads.string s
    rw [List.map_id'] at hfragments
    exact Reads.pair (Reads.enumeration e.1.ofText?_text) hfragments
  have hphases := Reads.list c.phases (g := fun e => e) fun e _ => hphase e
  rw [List.map_id'] at hphases
  exact hphases.record₁.map WorkerCode.mk

lemma nested {P : Number → Prop} (c : WorkerCode) : c.document.Nested P 4 := by
  refine .obj fun m hm => ?_
  rw [List.mem_singleton.1 hm]
  refine .arr fun d hd => ?_
  obtain ⟨e, -, rfl⟩ := List.mem_map.1 hd
  refine .arr fun d hd => ?_
  rcases List.mem_pair.1 hd with rfl | rfl
  · exact .str 1 e.1.text
  · refine .arr fun d hd => ?_
    obtain ⟨s, -, rfl⟩ := List.mem_map.1 hd
    exact .str 0 s

/-- The text of shipped code is read back as the code. -/
theorem read_write (c : WorkerCode) : read c.write = .ok c := by
  rw [read, write]
  exact c.reads.readAll (by decide)

end WorkerCode

/-! ## The other formats -/

/-- The text of a wire form is read back as the wire form. -/
lemma Wire.read_write {w : Wire} (hw : w.ReadsBack) : read w.write = .ok w.quiet := by
  rw [read, write, (reads hw).readAll (by decide)]
  rfl

/-- Putting the quiet NaN in the place of any other changes nothing else. -/
lemma Binary64.quiet_eq_self_or (x : Binary64) :
    x.quiet.isNaN = x.isNaN ∧ (x.isNaN = false → x.quiet = x) := by
  unfold quiet
  cases hnan : x.isNaN with
  | true =>
    rw [if_pos rfl]
    exact ⟨by decide, by simp⟩
  | false => exact ⟨hnan, fun _ => rfl⟩

/-! ## Nesting -/

/-- Any property that holds of all numbers may be asked of those of a document. -/
lemma integersAre_true : IntegersAre fun _ => True :=
  fun _ _ _ => trivial

lemma Wire.floatsAre_true (w : Wire) : w.FloatsAre fun _ => True :=
  ⟨fun _ _ _ => trivial, fun _ _ _ _ _ _ _ => trivial⟩

lemma Wire.nesting_le (w : Wire) : w.document.nesting ≤ 7 :=
  (nested integersAre_true w.floatsAre_true).nesting_le

lemma StoredValue.nesting_le (s : StoredValue) : s.document.nesting ≤ 8 := by
  have hbytes := fun bs => (nested_bytesDocument integersAre_true bs).mono (show 1 ≤ 7 by decide)
  refine Document.Nested.nesting_le (P := fun _ => True) ?_
  cases s with
  | null => exact nested_tagged "kind" "null" "value" (by simp)
  | generic wire =>
    exact nested_tagged_some "kind" "generic" "value"
      (Wire.nested integersAre_true wire.floatsAre_true)
  | bytearray bs => exact nested_tagged_some "kind" "bytearray" "value" (hbytes bs)
  | memoryview bs => exact nested_tagged_some "kind" "memoryview" "value" (hbytes bs)

lemma Message.nesting_le (m : Message) : m.document.nesting ≤ 8 :=
  (nested integersAre_true fun w _ => w.floatsAre_true).nesting_le

lemma WorkerCode.nesting_le (c : WorkerCode) : c.document.nesting ≤ 4 :=
  (nested (P := fun _ => True) c).nesting_le

/-! ## Values -/

/-- A value goes through the text of its wire form, however deep it nests. -/
lemma Wire.decodeJson_encodeJson {h : Heap} {v : Value} (hv : h.FunctionFree v)
    (hsize : (h.objectsFrom v).encard ≤ 2 ^ 32)
    (hfloats : ∀ x, h.Reaches v (.float x) → Json.ReadsBack x) :
    ∃ text, encodeJson h v = .ok text ∧ ∀ h₀, ∃ v' h', decodeJson h₀ text = .ok (v', h') ∧
      Isomorphic h.quiet v.quiet h' v' := by
  have henc := encode_eq hv
  refine ⟨_, by rw [encodeJson, henc]; rfl, fun h₀ => ?_⟩
  -- what is read back is the wire form of the graph with quiet NaNs
  obtain ⟨w, v', h', hquiet, hdec, iso⟩ :=
    decode_encode hv.quiet (by rwa [Heap.objectsFrom_quiet]) h₀
  rw [encode_quiet henc] at hquiet
  cases hquiet
  refine ⟨v', h', ?_, _, iso⟩
  rw [decodeJson, read_write (readsBack_of_encode henc hfloats)]
  exact hdec

/-- Every wire form, record, message and shipped code is read back from its text, as it is but for
the payload of a NaN. The texts nest eight deep at most, short of what the reader bears, so the same
holds of values of any depth that go through the text of their wire form. -/
theorem formats_read_write :
    (∀ w : Wire, w.ReadsBack → Wire.read w.write = .ok w.quiet) ∧
    (∀ s : StoredValue, s.ReadsBack → StoredValue.read s.write = .ok s.quiet) ∧
    (∀ m : Message, m.ReadsBack → Message.read m.write = .ok m.quiet) ∧
    (∀ c : WorkerCode, WorkerCode.read c.write = .ok c) ∧
    (∀ x : Binary64, x.quiet.isNaN = x.isNaN ∧ (x.isNaN = false → x.quiet = x)) ∧
    ((∀ w : Wire, w.document.nesting ≤ 7) ∧ (∀ s : StoredValue, s.document.nesting ≤ 8) ∧
      (∀ m : Message, m.document.nesting ≤ 8) ∧ (∀ c : WorkerCode, c.document.nesting ≤ 4) ∧
      8 < Reader.maxDepth) ∧
    (∀ (h : Heap) (v : Value), h.FunctionFree v → (h.objectsFrom v).encard ≤ 2 ^ 32 →
      (∀ x, h.Reaches v (.float x) → Json.ReadsBack x) →
      ∃ text, Wire.encodeJson h v = .ok text ∧ ∀ h₀, ∃ v' h',
        Wire.decodeJson h₀ text = .ok (v', h') ∧ Isomorphic h.quiet v.quiet h' v') :=
  ⟨fun _ => Wire.read_write, fun _ => StoredValue.read_write, fun _ => Message.read_write,
    WorkerCode.read_write, Binary64.quiet_eq_self_or,
    ⟨Wire.nesting_le, StoredValue.nesting_le, Message.nesting_le, WorkerCode.nesting_le, by decide⟩,
    fun _ _ => Wire.decodeJson_encodeJson⟩

/-- Scalars at the ends of their ranges: the floats are one and a half, a NaN with a payload and the
negative infinity. -/
def extremes : List Value :=
  [.float ⟨0x3FF8000000000000⟩, .float ⟨0x7FF8000000000001⟩, .float (.infinity true),
    .int Int64.minValue, .str "\"\\\n\u0001é", .handle ⟨0xFFFFFFFFFFFFFFFF⟩, .bytes [0, 255],
    .view [], .bool false, .null]

/-- A list of the extremes that holds itself. -/
def extremesLoop : Heap :=
  ⟨#[.list (.object 0 :: extremes)], 0⟩

/-- The wire form of that list. -/
def extremesWire : Wire :=
  ⟨.ref 0, [.list (.ref 0 :: extremes.map (·.toSlot id))]⟩

lemma readsBack_of_mem_extremes {x : Binary64} (hx : .float x ∈ extremes) : Json.ReadsBack x := by
  simp only [extremes, List.mem_cons, Value.float.injEq, reduceCtorEq, List.not_mem_nil, or_false]
    at hx
  rcases hx with rfl | rfl | rfl
  · exact Reader.readsBack_threeHalves
  · intro hfinite
    cases hfinite
  · intro hfinite
    cases hfinite

lemma objectsFrom_extremesLoop : extremesLoop.objectsFrom (.object 0) ⊆ {0} := by
  refine Heap.objectsFrom_subset (by simp) ?_
  rintro r rfl s hs
  have hs : Value.object s ∈ .object 0 :: extremes := hs
  simpa [extremes] using hs

lemma mem_extremes_of_reaches {v : Value} (hv : extremesLoop.Reaches (.object 0) v) :
    v ∈ .object 0 :: extremes := by
  rcases Heap.reaches_iff.1 hv with rfl | ⟨r, hr, hv⟩
  · exact List.mem_cons_self
  · cases objectsFrom_extremesLoop hr
    exact hv

lemma readsBack_extremesWire : extremesWire.ReadsBack := by
  refine ⟨by simp [extremesWire, Slot.ReadsBack], ?_⟩
  intro o ho s hs x hx
  rw [List.mem_singleton.1 ho] at hs
  rcases List.mem_cons.1 hs with rfl | hs
  · cases hx
  · obtain ⟨v, hv, rfl⟩ := List.mem_map.1 hs
    cases v with
    | float y =>
      cases hx
      exact readsBack_of_mem_extremes hv
    | _ => cases hx

theorem formats_read_write_extremes :
    Wire.read extremesWire.write = .ok extremesWire.quiet ∧
      StoredValue.read (StoredValue.generic extremesWire).write =
        .ok (.generic extremesWire.quiet) ∧
      Message.read (Message.call ⟨0xFFFFFFFFFFFFFFFF⟩ (.handle ⟨1⟩) extremesWire).write =
        .ok (.call ⟨0xFFFFFFFFFFFFFFFF⟩ (.handle ⟨1⟩) extremesWire.quiet) ∧
      ∃ text, Wire.encodeJson extremesLoop (.object 0) = .ok text ∧ ∀ h₀, ∃ v' h',
        Wire.decodeJson h₀ text = .ok (v', h') ∧
          Isomorphic extremesLoop.quiet (.object 0) h' v' := by
  obtain ⟨hwire, hstored, hmessage, -, -, -, hvalue⟩ := formats_read_write
  have hsize : (extremesLoop.objectsFrom (.object 0)).encard ≤ 2 ^ 32 := by
    refine (Set.encard_le_encard objectsFrom_extremesLoop).trans ?_
    rw [Set.encard_singleton]
    norm_num
  have hfunction : extremesLoop.FunctionFree (.object 0) := by
    intro f hf
    have := mem_extremes_of_reaches hf
    simp [extremes] at this
  refine ⟨hwire _ readsBack_extremesWire, hstored _ ?_, hmessage _ ?_,
    hvalue _ _ hfunction hsize ?_⟩
  · intro w hw
    cases hw
    exact readsBack_extremesWire
  · intro w hw
    cases hw
    exact readsBack_extremesWire
  · intro x hx
    rcases List.mem_cons.1 (mem_extremes_of_reaches hx) with hx | hx
    · cases hx
    · exact readsBack_of_mem_extremes hx

end WorkerHost
