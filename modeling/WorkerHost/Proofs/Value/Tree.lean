import WorkerHost.Json.Document
import WorkerHost.Proofs.Value.Sharing

/-!
# Values that are trees

`Heap.Unfolds h v d rs` reads a value as a document: scalars are scalars, a list is an array and a
map an object with its members in the order of the keys. `rs` has an object for every array and
object of the document, in depth-first order. Nothing keeps one object from standing in `rs` twice,
or an object from being below itself in the heap; a value is a tree if `rs` has no duplicates.

* `Unfolds.unique`: a value is one document at most, with its containers in one order;
* `Unfolds.objectsFrom_eq`: the containers are what can be reached;
* `Unfolds.not_mem_objectsFrom_child`: in a tree no object leads back to itself.
-/

namespace WorkerHost

open Json

/-- The document of a value without parts. -/
def Value.scalar? : Value → Option Document
  | .null => some .null
  | .bool b => some (.bool b)
  | .int n => some (.num (.int n.toInt))
  | .float x => some (.num (.float x))
  | .str s => some (.str s)
  | _ => none

/-- A value, the document it is, and the objects that are the containers of the document. -/
@[ext]
structure Branch where
  value : Value
  document : Document
  objects : List ℕ

namespace Heap

/-- The value is the document, and its containers are the objects of the list, in depth-first order.
-/
inductive Unfolds (h : Heap) : Value → Document → List ℕ → Prop
  | scalar {v : Value} {d : Document} (hv : v.scalar? = some d) : Unfolds h v d []
  | list {r : ℕ} {bs : List Branch} (hread : h.read r = .list (bs.map (·.value)))
      (hbs : ∀ b ∈ bs, Unfolds h b.value b.document b.objects) :
      Unfolds h (.object r) (.arr (bs.map (·.document))) (r :: bs.flatMap (·.objects))
  | map {r : ℕ} {bs : Dict Branch} (hread : h.read r = .map (bs.map (·.value)))
      (hbs : ∀ b ∈ bs.values, Unfolds h b.value b.document b.objects) :
      Unfolds h (.object r) (.obj (bs.map (·.document)).entries)
        (r :: bs.values.flatMap (·.objects))

namespace Unfolds
variable {h h' : Heap} {v w : Value} {d d' : Document} {r : ℕ} {rs rs' : List ℕ}

/-- For what does not depend on the document, lists and maps are objects that hold branches. -/
lemma induction_objects {motive : Value → List ℕ → Prop}
    (scalar : ∀ v, v.scalar?.isSome → motive v [])
    (object : ∀ (r : ℕ) (bs : List Branch), (h.read r).children = bs.map (·.value) →
      (∀ b ∈ bs, h.Unfolds b.value b.document b.objects) →
      (∀ b ∈ bs, motive b.value b.objects) → motive (.object r) (r :: bs.flatMap (·.objects)))
    (hu : h.Unfolds v d rs) : motive v rs := by
  induction hu with
  | scalar hv => exact scalar _ (by rw [hv]; rfl)
  | list hread hbs ih => exact object _ _ (by rw [hread]; rfl) hbs ih
  | map hread hbs ih => exact object _ _ (by rw [hread, Object.children, Dict.values_map]) hbs ih

/-- An object holds branches, whose containers come after it. -/
lemma exists_branches (hu : h.Unfolds (.object r) d rs) :
    ∃ bs : List Branch, (h.read r).children = bs.map (·.value) ∧
      (∀ b ∈ bs, h.Unfolds b.value b.document b.objects) ∧ rs = r :: bs.flatMap (·.objects) := by
  cases hu with
  | scalar hv => cases hv
  | list hread hbs => exact ⟨_, by rw [hread]; rfl, hbs, rfl⟩
  | map hread hbs => exact ⟨_, by rw [hread, Object.children, Dict.values_map], hbs, rfl⟩

lemma mem_root (hu : h.Unfolds (.object r) d rs) : r ∈ rs := by
  obtain ⟨bs, -, -, rfl⟩ := hu.exists_branches
  exact List.mem_cons_self

/-- The containers alone decide what document a value is. -/
lemma congr (hu : h.Unfolds v d rs) (hread : ∀ r ∈ rs, h'.read r = h.read r) :
    h'.Unfolds v d rs := by
  induction hu with
  | scalar hv => exact .scalar hv
  | list hr _ ih =>
    refine .list (by rw [hread _ List.mem_cons_self, hr]) fun b hb => ih b hb fun s hs => ?_
    exact hread s (List.mem_cons_of_mem _ (List.mem_flatMap_of_mem hb hs))
  | map hr _ ih =>
    refine .map (by rw [hread _ List.mem_cons_self, hr]) fun b hb => ih b hb fun s hs => ?_
    exact hread s (List.mem_cons_of_mem _ (List.mem_flatMap_of_mem hb hs))

/-! ## One document -/

/-- Branches that are known by their values. -/
lemma eq_of_map_value {bs bs' : List Branch}
    (hbs : ∀ b ∈ bs, ∀ d rs, h.Unfolds b.value d rs → b.document = d ∧ b.objects = rs)
    (hbs' : ∀ b ∈ bs', h.Unfolds b.value b.document b.objects)
    (heq : bs.map (·.value) = bs'.map (·.value)) : bs = bs' := by
  induction bs generalizing bs' with
  | nil => exact (List.map_eq_nil_iff.1 heq.symm).symm
  | cons b bs ih =>
    cases bs' with
    | nil => cases heq
    | cons b' bs' =>
      obtain ⟨hvalue, hrest⟩ := List.cons.inj heq
      have hvalue : b.value = b'.value := hvalue
      have hb' : h.Unfolds b.value b'.document b'.objects := hvalue ▸ hbs' b' List.mem_cons_self
      obtain ⟨hdocument, hobjects⟩ := hbs b List.mem_cons_self _ _ hb'
      rw [Branch.ext hvalue hdocument hobjects, ih (fun c hc => hbs c (List.mem_cons_of_mem _ hc))
        (fun c hc => hbs' c (List.mem_cons_of_mem _ hc)) hrest]

/-- A value is one document at most, with its containers in one order. -/
theorem unique (hu : h.Unfolds v d rs) (hu' : h.Unfolds v d' rs') : d = d' ∧ rs = rs' := by
  induction hu generalizing d' rs' with
  | scalar hv =>
    cases hu' with
    | scalar hv' => exact ⟨Option.some.inj (hv.symm.trans hv'), rfl⟩
    | list | map => cases hv
  | list hread _ ih =>
    cases hu' with
    | scalar hv' => cases hv'
    | list hread' hbs' =>
      have heq := hread.symm.trans hread'
      simp only [Object.list.injEq] at heq
      rw [eq_of_map_value (fun b hb _ _ => ih b hb) hbs' heq]
      exact ⟨rfl, rfl⟩
    | map hread' _ => cases hread.symm.trans hread'
  | @map _ bs hread _ ih =>
    cases hu' with
    | scalar hv' => cases hv'
    | list hread' _ => cases hread.symm.trans hread'
    | @map _ bs' hread' hbs' =>
      have heq := Object.map.inj (hread.symm.trans hread')
      have hvalues : bs.values = bs'.values := by
        refine eq_of_map_value (fun b hb _ _ => ih b hb) hbs' ?_
        simpa using congrArg Dict.values heq
      have hkeys : bs.entries.map (·.1) = bs'.entries.map (·.1) := by
        simpa [List.map_map, Function.comp_def] using
          congrArg (fun d => d.entries.map (·.1)) heq
      have hentries : bs.entries = bs'.entries := by
        rw [← List.zip_unzip bs.entries, ← List.zip_unzip bs'.entries]
        simp only [List.unzip_eq_map, hkeys]
        rw [show bs.entries.map (·.2) = bs'.entries.map (·.2) from hvalues]
      rw [Dict.ext_entries hentries]
      exact ⟨rfl, rfl⟩

/-! ## What can be reached -/

/-- What can be reached is a document of its own, with some of the containers. -/
lemma of_reaches (hu : h.Unfolds v d rs) (hw : h.Reaches v w) :
    ∃ d' rs', h.Unfolds w d' rs' ∧ rs'.Sublist rs := by
  induction hw with
  | refl => exact ⟨d, rs, hu, List.Sublist.refl rs⟩
  | tail _ hc ih =>
    obtain ⟨r, rfl, hmem⟩ := hc
    obtain ⟨d', rs', hr, hsub⟩ := ih
    obtain ⟨bs, hchildren, hbs, rfl⟩ := hr.exists_branches
    rw [hchildren] at hmem
    obtain ⟨b, hb, rfl⟩ := List.mem_map.1 hmem
    have hbelow : b.objects.Sublist (bs.flatMap (·.objects)) := by
      rw [List.flatMap_def]
      exact List.sublist_flatten_of_mem (List.mem_map_of_mem hb)
    exact ⟨_, _, hbs b hb, (hbelow.trans (List.sublist_cons_self r _)).trans hsub⟩

/-- The containers are what can be reached. -/
theorem objectsFrom_eq (hu : h.Unfolds v d rs) : h.objectsFrom v = {r | r ∈ rs} := by
  ext r
  constructor
  · intro hr
    obtain ⟨d', rs', hr, hsub⟩ := hu.of_reaches hr
    exact hsub.subset hr.mem_root
  · refine hu.induction_objects (motive := fun v rs => r ∈ rs → h.Reaches v (.object r)) ?_ ?_
    · exact fun _ _ hr => absurd hr List.not_mem_nil
    · intro s bs hchildren _ ih hr
      rcases List.mem_cons.1 hr with rfl | hr
      · exact .refl
      · obtain ⟨b, hb, hrb⟩ := List.mem_flatMap.1 hr
        refine .head ⟨s, rfl, ?_⟩ (ih b hb hrb)
        rw [hchildren]
        exact List.mem_map_of_mem hb

/-- In a tree no object leads back to itself. -/
theorem not_mem_objectsFrom_child (hu : h.Unfolds v d rs) (hnodup : rs.Nodup) (hr : r ∈ rs)
    (hw : w ∈ (h.read r).children) : r ∉ h.objectsFrom w := by
  have hr : r ∈ h.objectsFrom v := hu.objectsFrom_eq ▸ hr
  obtain ⟨d', rs', hr, hsub⟩ := hu.of_reaches hr
  obtain ⟨bs, hchildren, hbs, rfl⟩ := hr.exists_branches
  rw [hchildren] at hw
  obtain ⟨b, hb, rfl⟩ := List.mem_map.1 hw
  rw [(hbs b hb).objectsFrom_eq]
  have hnew := (List.nodup_cons.1 (hnodup.sublist hsub)).1
  exact fun hmem => hnew (List.mem_flatMap_of_mem hb hmem)

/-- No function is part of a document. -/
lemma functionFree (hu : h.Unfolds v d rs) : h.FunctionFree v := by
  intro f hf
  obtain ⟨_, _, hf, -⟩ := hu.of_reaches hf
  cases hf with
  | scalar hv => cases hv

end Unfolds
end Heap
end WorkerHost
