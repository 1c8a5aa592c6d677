import WorkerHost.Proofs.Value.Isomorphism
import WorkerHost.Proofs.Wire.RoundTrip

/-!
# NaN without a payload

A text tells a NaN from every number, but not one NaN from another: whatever goes through a text
comes back with the quiet NaN in the place of each NaN. `quiet` says so for floats, values and
heaps. It changes neither what is reachable nor, on a graph whose every NaN is the quiet one, the
graph.

Encoding and decoding carry floats along untouched, so putting the quiet NaN in the place of any
other may be done on either side of them: `Wire.encode_quiet` and `Wire.decode_quiet`.
-/

namespace WorkerHost

/-- The float with the quiet NaN in the place of any other. -/
def Binary64.quiet (x : Binary64) : Binary64 :=
  if x.isNaN then .nan else x

/-- The value with the quiet NaN in the place of any other. -/
def Value.quiet : Value → Value
  | .float x => .float x.quiet
  | v => v

/-- The object with the quiet NaN in the place of any other. -/
def Object.quiet : Object → Object
  | .list items => .list (items.map Value.quiet)
  | .map entries => .map (entries.map Value.quiet)

/-- The heap with the quiet NaN in the place of any other. -/
def Heap.quiet (h : Heap) : Heap :=
  { h with objects := h.objects.map Object.quiet }

namespace Binary64

@[simp] lemma quiet_quiet (x : Binary64) : x.quiet.quiet = x.quiet := by
  by_cases h : x.isNaN
  · simp [quiet, h]
  · simp [quiet, h]

lemma quiet_of_isFinite {x : Binary64} (hx : x.isFinite = true) : x.quiet = x := by
  have hnan : x.isNaN = false := by
    simp only [isFinite, bne_iff_ne] at hx
    simp [isNaN, hx]
  rw [quiet, hnan]
  rfl

/-- What is neither finite nor a NaN is an infinity. -/
lemma eq_infinity {x : Binary64} (hx : x.isFinite = false) (hnan : x.isNaN = false) :
    x = infinity x.isNegative := by
  have hexp : x.bits.toNat / 2 ^ 52 % 2 ^ 11 = 2047 := by
    simpa [isFinite, exponentField] using hx
  have hfrac : x.bits.toNat % 2 ^ 52 = 0 := by
    have := hnan
    simp only [isNaN, exponentField, fractionField, hexp] at this
    simpa using this
  have hlt := x.bits.toNat_lt
  have hneg : x.isNegative = decide (x.bits.toNat / 2 ^ 63 = 1) := by
    rw [isNegative, Bool.eq_iff_iff, beq_iff_eq, decide_eq_true_eq, ← UInt64.toNat_inj,
      UInt64.toNat_shiftRight, Nat.shiftRight_eq_div_pow]
    rfl
  obtain ⟨bits⟩ := x
  rw [hneg, infinity, ofMagnitude]
  congr 1
  rw [← UInt64.toNat_inj, UInt64.toNat_ofNat']
  by_cases hsign : bits.toNat / 2 ^ 63 = 1
  · simp only [hsign, decide_true, if_true]
    dsimp only at hexp hfrac hlt
    omega
  · simp only [hsign, decide_false, Bool.false_eq_true, if_false]
    dsimp only at hexp hfrac hlt
    omega

end Binary64

/-! ## Values and heaps -/

@[simp] lemma Value.quiet_quiet (v : Value) : v.quiet.quiet = v.quiet := by
  cases v <;> simp [quiet]

lemma Value.quiet_eq_object_iff {v : Value} {r : ℕ} : v.quiet = .object r ↔ v = .object r := by
  cases v <;> simp [quiet]

lemma Value.quiet_eq_function_iff {v : Value} {f : Function} :
    v.quiet = .function f ↔ v = .function f := by
  cases v <;> simp [quiet]

@[simp] lemma Object.quiet_quiet (o : Object) : o.quiet.quiet = o.quiet := by
  cases o <;> simp [quiet, Dict.map_map, Function.comp_def]

@[simp] lemma Object.children_quiet (o : Object) :
    o.quiet.children = o.children.map Value.quiet := by
  cases o <;> simp [quiet, children]

namespace Heap
variable {h : Heap} {v w : Value}

@[simp] lemma size_quiet (h : Heap) : h.quiet.size = h.size := by
  simp [quiet, size]

@[simp] lemma read_quiet (h : Heap) (r : ℕ) : h.quiet.read r = (h.read r).quiet := by
  simp only [quiet, read, Array.getD_eq_getD_getElem?, Array.getElem?_map]
  cases h.objects[r]? <;> rfl

/-- What is reachable is, with the quiet NaN, still reachable, and nothing else is. -/
lemma reaches_quiet {w' : Value} :
    h.quiet.Reaches v.quiet w' ↔ ∃ w, h.Reaches v w ∧ w' = w.quiet := by
  have hread : ∀ r ∈ h.objectsFrom v,
      (h.quiet.read r).children = (h.read r).children.map Value.quiet := by
    intro r _
    rw [read_quiet, Object.children_quiet]
  constructor
  · intro hw
    refine Reaches.exists_of_map (f := id) (fun u s hu => ?_) rfl hread hw
    exact ⟨s, Value.quiet_eq_object_iff.1 hu, rfl⟩
  · intro hx
    obtain ⟨w, hw, rfl⟩ := hx
    exact hw.map (f := id) (fun r => rfl) rfl hread

@[simp] lemma objectsFrom_quiet : h.quiet.objectsFrom v.quiet = h.objectsFrom v := by
  ext r
  constructor
  · intro hr
    obtain ⟨w, hw, heq⟩ := reaches_quiet.1 hr
    rw [Value.quiet_eq_object_iff.1 heq.symm] at hw
    exact hw
  · intro hr
    exact reaches_quiet.2 ⟨_, hr, rfl⟩

lemma FunctionFree.quiet (hv : h.FunctionFree v) : h.quiet.FunctionFree v.quiet := by
  intro f hf
  obtain ⟨w, hw, heq⟩ := reaches_quiet.1 hf
  rw [Value.quiet_eq_function_iff.1 heq.symm] at hw
  exact hv f hw

end Heap

/-- A graph whose every NaN is the quiet one is what it becomes with the quiet NaN. -/
lemma Isomorphic.quiet {h : Heap} {v : Value}
    (hquiet : ∀ x, h.Reaches v (.float x) → x.quiet = x) : Isomorphic h v h.quiet v.quiet := by
  have hvalue : ∀ w, h.Reaches v w → w.quiet = w := by
    intro w hw
    cases w with
    | float x => rw [Value.quiet, hquiet x hw]
    | _ => rfl
  refine ⟨id, IsomorphicVia.of_injOn (Set.injOn_id _) ?_ ?_⟩
  · rw [Value.rename_id, hvalue v .refl]
  · intro r hr
    rw [id_eq, Heap.read_quiet, Object.rename_id]
    have hchild : ∀ w ∈ (h.read r).children, w.quiet = w :=
      fun w hw => hvalue w (Heap.Reaches.child hr hw)
    cases ho : h.read r with
    | list items =>
      have hitems : items.map Value.quiet = items.map id :=
        List.map_congr_left fun w hw => hchild w (by rw [ho]; exact hw)
      rw [Object.quiet, hitems, List.map_id]
    | map entries =>
      have hentries : entries.map Value.quiet = entries.map fun w => w :=
        Dict.map_congr fun w hw => hchild w (by rw [ho]; exact hw)
      rw [Object.quiet, hentries, Dict.map_id']

/-! ## On the wire -/

/-- The slot with the quiet NaN in the place of any other. -/
def Slot.quiet : Slot → Slot
  | .float x => .float x.quiet
  | s => s

/-- The table entry with the quiet NaN in the place of any other. -/
def WireObject.quiet : WireObject → WireObject
  | .list slots => .list (slots.map Slot.quiet)
  | .map entries => .map (entries.map fun e => (e.1, e.2.quiet))

/-- The wire form with the quiet NaN in the place of any other. -/
def Wire.quiet (w : Wire) : Wire :=
  ⟨w.root.quiet, w.objects.map WireObject.quiet⟩

@[simp] lemma Slot.quiet_quiet (s : Slot) : s.quiet.quiet = s.quiet := by
  cases s <;> simp [quiet]

@[simp] lemma WireObject.quiet_quiet (o : WireObject) : o.quiet.quiet = o.quiet := by
  cases o <;> simp [quiet]

@[simp] lemma Wire.quiet_quiet (w : Wire) : w.quiet.quiet = w.quiet := by
  simp [quiet]

/-! ## Encoding -/

namespace ObjectTable

lemma places_quiet (o : Object) : places o.quiet = (places o).map fun p => (p.1, p.2.quiet) := by
  cases o with
  | list items =>
    apply List.ext_getElem?
    intro i
    simp [places, Object.quiet, Option.map_map, Function.comp_def]
  | map entries => simp [places, Object.quiet, Function.comp_def]

lemma childrenOf_quiet (parent : ℕ) (ps : List (Segment × Value)) :
    childrenOf parent (ps.map fun p => (p.1, p.2.quiet)) = childrenOf parent ps := by
  induction ps with
  | nil => rfl
  | cons p ps ih =>
    obtain ⟨s, v⟩ := p
    cases v <;> simpa [childrenOf, Value.quiet] using ih

/-- The walk looks at references only. -/
lemma collect_quiet (h : Heap) (t : ObjectTable) (stack : List Pending) :
    collect h.quiet t stack = collect h t stack := by
  induction t, stack using collect.induct h with
  | case1 t => rw [collect, collect]
  | case2 t p stack hnum ih =>
    rw [collect, collect]
    simp only [hnum, dite_true, ih]
  | case3 t p stack hnum hlt ih =>
    rw [collect, collect]
    simp only [hnum, hlt, Heap.size_quiet, Heap.read_quiet, places_quiet, childrenOf_quiet,
      dite_true, ih]
    simp
  | case4 t p stack hnum hlt ih =>
    rw [collect, collect]
    simp only [hnum, hlt, Heap.size_quiet, dite_false, ih]
    simp

lemma ofValue_quiet (h : Heap) (v : Value) : ofValue h.quiet v.quiet = ofValue h v := by
  cases v <;> simp [ofValue, Value.quiet, collect_quiet]

end ObjectTable

lemma Value.toSlot_quiet (n : ℕ → ℕ) (v : Value) : v.quiet.toSlot n = (v.toSlot n).quiet := by
  cases v <;> rfl

lemma Object.toEntry_quiet (n : ℕ → ℕ) (o : Object) :
    o.quiet.toEntry n = (o.toEntry n).quiet := by
  cases o <;> simp [quiet, toEntry, WireObject.quiet, Value.toSlot_quiet]

/-- The quiet NaN may be put in before encoding or afterwards. -/
lemma Wire.encode_quiet {h : Heap} {v : Value} {w : Wire} (hw : encode h v = .ok w) :
    encode h.quiet v.quiet = .ok w.quiet := by
  have hv := functionFree_of_encode hw
  rw [encode_eq hv] at hw
  cases hw
  rw [encode_eq hv.quiet, ObjectTable.ofValue_quiet]
  simp [quiet, Value.toSlot_quiet, Object.toEntry_quiet]

/-! ## Decoding -/

namespace Wire

lemma resolve_quiet (base count : ℕ) (s : Slot) :
    resolve base count s.quiet = (resolve base count s).map Value.quiet := by
  cases s with
  | ref id =>
    simp only [Slot.quiet, resolve]
    split <;> rfl
  | _ => rfl

lemma object_quiet (base count : ℕ) (o : WireObject) :
    object base count o.quiet = (object base count o).map Object.quiet := by
  cases o with
  | list slots =>
    simp only [WireObject.quiet, object]
    rw [mapM_map_comm (resolve_quiet base count)]
    cases slots.mapM (resolve base count) with
    | error e => rfl
    | ok vs => rfl
  | map entries =>
    have hentry : ∀ e : String × Slot,
        (do return ((e.1, e.2.quiet).1, ← resolve base count (e.1, e.2.quiet).2) :
          Except CodecError (String × Value)) =
        (do return (e.1, ← resolve base count e.2) : Except CodecError (String × Value)).map
          fun e => (e.1, e.2.quiet) := by
      intro e
      rw [resolve_quiet]
      cases resolve base count e.2 with
      | error e => rfl
      | ok v => rfl
    simp only [WireObject.quiet, object]
    rw [mapM_map_comm hentry]
    cases entries.mapM (fun e => do return (e.1, ← resolve base count e.2) :
        String × Slot → Except CodecError (String × Value)) with
    | error e => rfl
    | ok es => exact congrArg (fun d => Except.ok (Object.map d)) (Dict.ofList_map Value.quiet es)

/-- The quiet NaN may be put in before decoding or afterwards. -/
lemma decode_quiet (h : Heap) (w : Wire) :
    (decode h w.quiet).map (fun p => (p.1.quiet, p.2.quiet)) =
      (decode h w).map fun p => (p.1.quiet, p.2.quiet) := by
  simp only [decode, quiet, List.length_map]
  rw [mapM_map_comm (object_quiet h.size w.objects.length), resolve_quiet]
  cases w.objects.mapM (object h.size w.objects.length) with
  | error e => rfl
  | ok objects =>
    cases resolve h.size w.objects.length w.root with
    | error e => rfl
    | ok root =>
      show Except.ok _ = Except.ok _
      simp [Heap.quiet, Function.comp_def]

end Wire
end WorkerHost
