import WorkerHost.Proofs.Wire.Text
import WorkerHost.Storage.Record

/-!
# Records

What becomes of a value on its way into a record, into the text of the record and back.

* `StoredValue.read_write`: the text of a record is read back as the record, with the quiet NaN in
  the place of any other;
* `StoredValue.restores`: the value of either of the two records is the value that was stored.
-/

namespace WorkerHost

open Json.Decoder

/-- The graph on the right is the graph on the left; if that one has a NaN with a payload, perhaps
with the quiet NaN in the place of every NaN. -/
def Restores (h : Heap) (v : Value) (h' : Heap) (v' : Value) : Prop :=
  Isomorphic h v h' v' ∨
    (∃ x, h.Reaches v (.float x) ∧ x.quiet ≠ x) ∧ Isomorphic h.quiet v.quiet h' v'

/-- With the quiet NaN in the place of any other, a graph comes back as it is or so changed. -/
lemma Restores.of_quiet {h h' : Heap} {v v' : Value}
    (hiso : Isomorphic h.quiet v.quiet h' v') : Restores h v h' v' := by
  by_cases hquiet : ∀ x, h.Reaches v (.float x) → x.quiet = x
  · exact .inl ((Isomorphic.quiet hquiet).trans hiso)
  · have hpayload : ∃ x, h.Reaches v (.float x) ∧ x.quiet ≠ x := by
      simpa only [not_forall, exists_prop] using hquiet
    exact .inr ⟨hpayload, hiso⟩

namespace StoredValue

/-- The record with the quiet NaN in the place of any other. -/
def quiet : StoredValue → StoredValue
  | .generic wire => .generic wire.quiet
  | s => s

/-- Every float of the record is read back from its text. -/
def ReadsBack (s : StoredValue) : Prop :=
  ∀ wire, s = .generic wire → wire.ReadsBack

variable {h : Heap} {v : Value} {s : StoredValue}

@[simp] lemma quiet_quiet (s : StoredValue) : s.quiet.quiet = s.quiet := by
  cases s <;> simp [quiet]

/-! ## The text -/

lemma reads (hs : s.ReadsBack) : decoder.Reads 8 s.document s.quiet := by
  cases s with
  | null => exact (Reads.bare rfl rfl).mono (by decide)
  | generic wire =>
    exact Reads.tagged (by decide) rfl ((Wire.reads (hs wire rfl)).map StoredValue.generic)
  | bytearray bs =>
    have hbytes := (reads_bytesDocument bs).mono (show 1 ≤ 7 by decide)
    exact Reads.tagged (by decide) rfl (hbytes.map StoredValue.bytearray)
  | memoryview bs =>
    have hbytes := (reads_bytesDocument bs).mono (show 1 ≤ 7 by decide)
    exact Reads.tagged (by decide) rfl (hbytes.map StoredValue.memoryview)

/-- The text of a record is read back as the record. -/
lemma read_write (hs : s.ReadsBack) : read s.write = .ok s.quiet := by
  rw [read, write, (reads hs).readAll (by decide)]
  rfl

/-! ## The value -/

/-- Which record a value becomes. -/
inductive Recorded (h : Heap) : Value → StoredValue → Prop
  | null : Recorded h .null .null
  | bytes (bs : List UInt8) : Recorded h (.bytes bs) (.bytearray bs)
  | view (bs : List UInt8) : Recorded h (.view bs) (.memoryview bs)
  | generic {v : Value} {w : Wire} (hw : Wire.encode h v = .ok w)
      (hkind : v ≠ .null ∧ ∀ bs, v ≠ .bytes bs ∧ v ≠ .view bs) : Recorded h v (.generic w)

lemma ofValue_eq_ok_iff : ofValue h v = .ok s ↔ Recorded h v s := by
  constructor
  · intro hs
    unfold ofValue at hs
    split at hs
    · cases hs
      exact .null
    · cases hs
      exact .bytes _
    · cases hs
      exact .view _
    · next hnull hbytes hview =>
      cases hw : Wire.encode h v with
      | error e => rw [hw] at hs; cases hs
      | ok w =>
        rw [hw] at hs
        cases hs
        exact .generic hw ⟨hnull, fun bs => ⟨hbytes bs, hview bs⟩⟩
  · intro hs
    cases hs with
    | null => rfl
    | bytes bs => rfl
    | view bs => rfl
    | generic hw hkind =>
      unfold ofValue
      split
      · exact absurd rfl hkind.1
      · exact absurd rfl (hkind.2 _).1
      · exact absurd rfl (hkind.2 _).2
      · rw [hw]
        rfl

/-- The quiet NaN may be put in before a value is made a record or afterwards. -/
lemma ofValue_quiet (hs : ofValue h v = .ok s) : ofValue h.quiet v.quiet = .ok s.quiet := by
  rw [ofValue_eq_ok_iff] at hs ⊢
  cases hs with
  | null => exact .null
  | bytes bs => exact .bytes bs
  | view bs => exact .view bs
  | generic hw hkind =>
    refine .generic (Wire.encode_quiet hw) ?_
    cases v <;> simp_all [Value.quiet]

/-- A record has the floats of its value. -/
lemma readsBack_of_ofValue (hs : ofValue h v = .ok s)
    (hfloats : ∀ x, h.Reaches v (.float x) → Json.ReadsBack x) : s.ReadsBack := by
  intro wire heq
  subst heq
  cases ofValue_eq_ok_iff.1 hs with
  | generic hw _ => exact Wire.readsBack_of_encode hw hfloats

/-- The value of the record of a value. -/
lemma isomorphic_of_toValue (hs : ofValue h v = .ok s)
    (hsize : (h.objectsFrom v).encard ≤ 2 ^ 32) (h₀ : Heap) :
    ∃ v' h', s.toValue h₀ = .ok (v', h') ∧ Isomorphic h v h' v' := by
  cases ofValue_eq_ok_iff.1 hs with
  | null => exact ⟨_, _, rfl, .of_scalar (by simp)⟩
  | bytes bs => exact ⟨_, _, rfl, .of_scalar (by simp)⟩
  | view bs => exact ⟨_, _, rfl, .of_scalar (by simp)⟩
  | @generic _ w hw _ =>
    obtain ⟨w', v', h', hw', hdecode, hiso⟩ :=
      Wire.decode_encode (Wire.functionFree_of_encode hw) hsize h₀
    rw [hw] at hw'
    cases hw'
    exact ⟨v', h', hdecode, _, hiso⟩

/-- A record of a value, or what its text is read back as, gives the value back. -/
lemma restores {s' : StoredValue} (hs : ofValue h v = .ok s) (hs' : s' = s ∨ s' = s.quiet)
    (hsize : (h.objectsFrom v).encard ≤ 2 ^ 32) (h₀ : Heap) :
    ∃ v' h', s'.toValue h₀ = .ok (v', h') ∧ Restores h v h' v' := by
  rcases hs' with rfl | rfl
  · obtain ⟨v', h', hv', hiso⟩ := isomorphic_of_toValue hs hsize h₀
    exact ⟨v', h', hv', .inl hiso⟩
  · obtain ⟨v', h', hv', hiso⟩ :=
      isomorphic_of_toValue (ofValue_quiet hs) (by rwa [Heap.objectsFrom_quiet]) h₀
    exact ⟨v', h', hv', .of_quiet hiso⟩

/-- The two records of a value have the same value but for the payload of a NaN. -/
lemma toValue_quiet (s : StoredValue) (h₀ : Heap) :
    (s.quiet.toValue h₀).map (fun p => (p.1.quiet, p.2.quiet)) =
      (s.toValue h₀).map fun p => (p.1.quiet, p.2.quiet) := by
  cases s with
  | generic wire => exact Wire.decode_quiet h₀ wire
  | _ => rfl

end StoredValue
end WorkerHost
