import WorkerHost.Proofs.Value.Display
import WorkerHost.Proofs.Wire.RoundTrip

/-!
# What is printed at each position

A position in a value graph is a path from the root, so one object may stand at many positions, and
in a cyclic graph there is no end of them. `Heap.Shown` says what is printed at a position: an
object that the path has gone through is cut short, any other is printed in full, however often it
was printed before. The text goes no further than a cut, and so it ends.

* `Heap.Shown.unique`, `Heap.shown_textIn`: at every position one text is printed;
* `display_depends_on_graph`: the text of a value is the one at its root, and graphs that differ in
  the numbers of their objects and in functions of the same names have the same.
-/

namespace WorkerHost

/-- The text of an object from the texts at the ends of the steps into it. -/
def Object.textWith (below : Segment → String) : Object → String
  | .list items => "[" ++ ", ".intercalate (items.mapIdx fun i _ => below (.index i)) ++ "]"
  | .map entries =>
    "\x7b" ++ ", ".intercalate (entries.entries.map fun e => e.1 ++ ": " ++ below (.key e.1)) ++
      "\x7d"

namespace Heap

/-- The path goes through an object before its end. -/
def Ancestor (h : Heap) (v : Value) (path : List Segment) (r : ℕ) : Prop :=
  ∃ q, q <+: path ∧ q ≠ path ∧ h.follow? v q = some (.object r)

/-- A text is printed at the end of a path from the root. -/
inductive Shown (h : Heap) (v : Value) : List Segment → String → Prop
  /-- what is no object is printed as everywhere -/
  | scalar {path : List Segment} {w : Value} (hw : h.follow? v path = some w)
      (hne : ∀ r, w ≠ .object r) : Shown h v path (empty.display w)
  /-- an object inside itself is cut short -/
  | again {path : List Segment} {r : ℕ} (hr : h.follow? v path = some (.object r))
      (hin : h.Ancestor v path r) : Shown h v path "[...]"
  /-- any other object is printed in full -/
  | whole {path : List Segment} {r : ℕ} {below : Segment → String}
      (hr : h.follow? v path = some (.object r)) (hout : ¬ h.Ancestor v path r)
      (hbelow : ∀ s w, h.step? (.object r) s = some w → Shown h v (path ++ [s]) (below s)) :
      Shown h v path ((h.read r).textWith below)

variable {h : Heap} {v w : Value} {path : List Segment} {r : ℕ}

lemma ancestor_concat {s : Segment} : h.Ancestor v (path ++ [s]) r ↔
    h.follow? v path = some (.object r) ∨ h.Ancestor v path r := by
  constructor
  · rintro ⟨q, hq, hne, hr⟩
    rcases List.prefix_concat_iff.1 hq with rfl | hq
    · exact absurd rfl hne
    · by_cases heq : q = path
      · exact .inl (heq ▸ hr)
      · exact .inr ⟨q, hq, heq, hr⟩
  · rintro (hr | ⟨q, hq, -, hr⟩)
    · exact ⟨path, List.prefix_append _ _, by simp, hr⟩
    · refine ⟨q, hq.trans (List.prefix_append _ _), fun heq => ?_, hr⟩
      have hlen := hq.length_le
      simp [heq] at hlen

/-- The text of an object depends on the texts at the ends of the steps that there are. -/
lemma textWith_congr {below below' : Segment → String}
    (hs : ∀ s w, h.step? (.object r) s = some w → below s = below' s) :
    (h.read r).textWith below = (h.read r).textWith below' := by
  cases hread : h.read r with
  | list items =>
    have hitems : (items.mapIdx fun i _ => below (.index i)) =
        items.mapIdx fun i _ => below' (.index i) := by
      refine List.mapIdx_eq_mapIdx_iff.2 fun i hi => hs _ items[i] ?_
      simp [step?, index?, hread, hi]
    simp only [Object.textWith, hitems]
  | map entries =>
    have hentries : (entries.entries.map fun e => e.1 ++ ": " ++ below (.key e.1)) =
        entries.entries.map fun e => e.1 ++ ": " ++ below' (.key e.1) := by
      refine List.map_congr_left fun e he => ?_
      rw [hs (.key e.1) e.2 (by simpa [step?, get?, hread] using Dict.get?_eq_some_iff.2 he)]
    simp only [Object.textWith, hentries]

/-- What an object holds stands at the ends of the steps into it. -/
lemma textOfObject_eq (text : Value → String) : textOfObject text (h.read r) =
    (h.read r).textWith fun s => (h.step? (.object r) s).elim "" text := by
  cases hread : h.read r with
  | list items =>
    have hitems : items.map text =
        items.mapIdx fun i _ => (h.step? (.object r) (.index i)).elim "" text := by
      apply List.ext_getElem?
      intro i
      cases hi : items[i]? <;> simp [step?, index?, hread, hi]
    simp only [textOfObject, Object.textWith, hitems]
  | map entries =>
    have hentries : (entries.entries.map fun e => e.1 ++ ": " ++ text e.2) =
        entries.entries.map fun e =>
          e.1 ++ ": " ++ (h.step? (.object r) (.key e.1)).elim "" text := by
      refine List.map_congr_left fun e he => ?_
      have hget : h.step? (.object r) (.key e.1) = some e.2 := by
        simpa [step?, get?, hread] using Dict.get?_eq_some_iff.2 he
      rw [hget, Option.elim_some]
    simp only [textOfObject, Object.textWith, hentries]

/-- No two texts are printed at one position. -/
theorem Shown.unique {text text' : String} (ht : h.Shown v path text) (ht' : h.Shown v path text') :
    text = text' := by
  induction ht generalizing text' with
  | scalar hw hne =>
    cases ht' with
    | scalar hw' _ => rw [Option.some.inj (hw.symm.trans hw')]
    | again hr _ => exact absurd (Option.some.inj (hw.symm.trans hr)) (hne _)
    | whole hr _ _ => exact absurd (Option.some.inj (hw.symm.trans hr)) (hne _)
  | again hr hin =>
    cases ht' with
    | scalar hw hne => exact absurd (Option.some.inj (hw.symm.trans hr)) (hne _)
    | again _ _ => rfl
    | whole hr' hout _ =>
      cases hr.symm.trans hr'
      exact absurd hin hout
  | whole hr hout _ ih =>
    cases ht' with
    | scalar hw hne => exact absurd (Option.some.inj (hw.symm.trans hr)) (hne _)
    | again hr' hin =>
      cases hr.symm.trans hr'
      exact absurd hin hout
    | whole hr' _ hbelow =>
      cases hr.symm.trans hr'
      exact textWith_congr fun s w hs => ih s w hs (hbelow s w hs)

/-- What `textIn` gives for a value inside the objects on the way to it is printed there. -/
lemma shown_textIn (path : List Segment) (above : List ℕ)
    (habove : ∀ r, r ∈ above ↔ h.Ancestor v path r) (w : Value) (hw : h.follow? v path = some w) :
    h.Shown v path (h.textIn above w) := by
  by_cases hobj : ∃ r, w = .object r
  · obtain ⟨r, rfl⟩ := hobj
    by_cases hin : r ∈ above
    · have htext : h.textIn above (.object r) = "[...]" := by
        rw [textIn, textBelow, dif_pos hin]
        rfl
      rw [htext]
      exact .again hw ((habove r).1 hin)
    · rw [textIn_object h hin, textOfObject_eq]
      refine .whole hw (mt (habove r).2 hin) fun s u hu => ?_
      rw [hu, Option.elim_some]
      have hlt : r < h.size := by
        by_contra hge
        cases s <;> simp [step?, get?, index?, read_of_size_le hge] at hu
      -- below an object there is one object more that would be cut short
      have hless := h.unvisited_cons_lt hlt hin
      refine shown_textIn (path ++ [s]) (r :: above) (fun r' => ?_) u ?_
      · rw [List.mem_cons, ancestor_concat, hw, habove]
        simp [eq_comm]
      · rw [follow?_concat hw, hu]
  · rw [not_exists] at hobj
    rw [textIn_of_ne_object h _ hobj]
    exact .scalar hw hobj
termination_by h.unvisited above

/-- The text of a value is what is printed at its root. -/
lemma shown_nil_iff {text : String} : h.Shown v [] text ↔ text = h.display v := by
  have hroot : h.Shown v [] (h.display v) := by
    refine shown_textIn [] [] (fun r => ?_) v rfl
    simp [Ancestor]
  exact ⟨fun ht => ht.unique hroot, fun heq => heq ▸ hroot⟩

/-- There are finitely many objects on the way to a position. -/
lemma exists_above (h : Heap) (v : Value) (path : List Segment) :
    ∃ above : List ℕ, ∀ r, r ∈ above ↔ h.Ancestor v path r := by
  induction path using List.reverseRecOn with
  | nil => exact ⟨[], by simp [Ancestor]⟩
  | append_singleton path s ih =>
    obtain ⟨above, habove⟩ := ih
    by_cases hobj : ∃ r, h.follow? v path = some (.object r)
    · obtain ⟨r, hr⟩ := hobj
      refine ⟨r :: above, fun r' => ?_⟩
      rw [ancestor_concat, List.mem_cons, habove, hr]
      simp [eq_comm]
    · refine ⟨above, fun r => ?_⟩
      rw [ancestor_concat, habove, or_iff_right fun hr => hobj ⟨r, hr⟩]

end Heap

/-! ## Functions -/

/-- The value with nothing left of a function but its name. -/
def Value.named : Value → Value
  | .function f => .function ⟨0, f.name, .nothing⟩
  | v => v

/-- The heap with nothing left of functions but their names. -/
def Heap.named (h : Heap) : Heap :=
  { h with objects := h.objects.map (·.mapValues Value.named) }

namespace Heap

lemma read_named (h : Heap) (r : ℕ) : h.named.read r = (h.read r).mapValues Value.named := by
  simp only [named, read, Array.getD_eq_getD_getElem?, Array.getElem?_map]
  cases h.objects[r]? <;> rfl

/-- Of a function the text has the name only. -/
lemma display_named (h : Heap) (v : Value) : h.named.display v.named = h.display v := by
  refine textIn_map (f := id) (g := Value.named) (Set.injOn_id _) (fun r => rfl) (fun w hw => ?_)
    (fun r _ => h.read_named r) [] (by simp) v .refl
  cases w with
  | object r => exact absurd rfl (hw r)
  | function f => exact ⟨fun r => by simp [Value.named], by simp [Value.named, display, textBelow]⟩
  | _ => exact ⟨fun r => by simp [Value.named], rfl⟩

end Heap

/-- At every position of a graph, cyclic or not, exactly one text is printed, and the text of the
value is the one at its root. Graphs that differ in the numbers of their objects and in functions of
the same names have the same text, and so has what a graph is decoded to. -/
theorem display_depends_on_graph :
    (∀ (h : Heap) (v : Value) (path : List Segment) (w : Value), h.follow? v path = some w →
      ∃! text, h.Shown v path text) ∧
    (∀ (h : Heap) (v : Value) (text : String), h.Shown v [] text ↔ text = h.display v) ∧
    (∀ (h : Heap) (v : Value) (h' : Heap) (v' : Value),
      Isomorphic h.named v.named h'.named v'.named → h'.display v' = h.display v) ∧
    ∀ (h : Heap) (v : Value) (w : Wire) (h₀ : Heap), Wire.encode h v = .ok w →
      (h.objectsFrom v).encard ≤ 2 ^ 32 →
      ∃ v' h', Wire.decode h₀ w = .ok (v', h') ∧ h'.display v' = h.display v := by
  refine ⟨fun h v path w hw => ?_, fun h v text => Heap.shown_nil_iff, fun h v h' v' hiso => ?_,
    fun h v w h₀ hw hsize => ?_⟩
  · obtain ⟨above, habove⟩ := h.exists_above v path
    have hshown := Heap.shown_textIn path above habove w hw
    exact ⟨_, hshown, fun text htext => htext.unique hshown⟩
  · rw [← h'.display_named, ← h.display_named]
    exact hiso.display_eq
  · obtain ⟨w', v', h', hw', hdec, iso⟩ :=
      Wire.decode_encode (Wire.functionFree_of_encode hw) hsize h₀
    cases hw.symm.trans hw'
    have hiso : Isomorphic h v h' v' := ⟨_, iso⟩
    exact ⟨v', h', hdec, hiso.display_eq⟩

lemma display_sharedLoop : Wire.sharedLoop.display (.object 0) =
    "[\x7bback: [...], n: 3\x7d, \x7bback: [...], n: 3\x7d, bytearray(1 bytes), NaN]" := by
  have hentries : (Dict.ofList [("back", Value.object 0), ("n", .int 3)]).entries =
      [("back", .object 0), ("n", .int 3)] := by
    decide
  have hint : Int.repr 3 = "3" := rfl
  have hcount : Nat.repr 1 = "1" := rfl
  have hnan : (⟨0x7FF8000000000001⟩ : Binary64).display = "NaN" := rfl
  simp [Heap.display, Heap.textBelow, Heap.textOfItems, Heap.textOfEntries, Wire.sharedLoop,
    Heap.size, hentries, hint, hcount, hnan]

/-- A list that holds a function and itself. -/
def callLoop (f : Function) : Heap :=
  ⟨#[.list [.function f, .object 0]], 0⟩

/-- In `Wire.sharedLoop` the shared map is printed in full twice, and the list in it cut short. -/
theorem display_depends_on_graph_sharedLoop :
    (∃! text, Wire.sharedLoop.Shown (.object 0) [.index 1, .key "back"] text) ∧
      Wire.sharedLoop.Shown (.object 0) []
        "[\x7bback: [...], n: 3\x7d, \x7bback: [...], n: 3\x7d, bytearray(1 bytes), NaN]" ∧
      (callLoop ⟨3, "f", .fail⟩).display (.object 0) =
        (callLoop ⟨0, "f", .nothing⟩).display (.object 0) ∧
      ∃ w v' h', Wire.encode Wire.sharedLoop (.object 0) = .ok w ∧
        Wire.decode .empty w = .ok (v', h') ∧
        h'.display v' = Wire.sharedLoop.display (.object 0) := by
  obtain ⟨hexists, hroot, hiso, hdecode⟩ := display_depends_on_graph
  have hnamed : (callLoop ⟨3, "f", .fail⟩).named = (callLoop ⟨0, "f", .nothing⟩).named := by
    simp [callLoop, Heap.named, Object.mapValues, Value.named]
  have hencode := Wire.encode_eq Wire.functionFree_sharedLoop
  obtain ⟨v', h', hdec, hdisplay⟩ :=
    hdecode _ _ _ .empty hencode Wire.encard_objectsFrom_sharedLoop
  refine ⟨hexists _ _ _ (.object 0) rfl, (hroot _ _ _).2 display_sharedLoop.symm,
    hiso _ _ _ _ ?_, _, v', h', hencode, hdec, hdisplay⟩
  rw [hnamed]
  exact .refl _ _

end WorkerHost
