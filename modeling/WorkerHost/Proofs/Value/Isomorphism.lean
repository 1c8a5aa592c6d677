import Mathlib.Data.Set.Card
import Mathlib.Logic.Relation
import WorkerHost.Proofs.Value.Dict
import WorkerHost.Value.Heap

/-!
# Value graphs up to isomorphism

A value together with its heap is a rooted graph. `Heap.Reaches` says what stands at the end of a
path, and `Isomorphic` that two rooted graphs differ in the numbers of their objects only: a
bijection between the reachable objects under which every object holds the renamed contents, kind,
order, keys and scalars included.

* `IsomorphicVia.of_injOn`: an injective renaming that fits root and contents is a bijection between
  what is reachable on both sides;
* `Isomorphic.refl`, `Isomorphic.symm`, `Isomorphic.trans`;
* `IsomorphicVia.follow?_rename`: a path leads to corresponding values on both sides.
-/

namespace WorkerHost

/-! ## Reachability -/

namespace Heap

/-- `w` stands in the object that `v` refers to. -/
def Child (h : Heap) (v w : Value) : Prop :=
  ∃ r, v = .object r ∧ w ∈ (h.read r).children

/-- `w` stands at the end of a path from `v`. -/
def Reaches (h : Heap) : Value → Value → Prop :=
  Relation.ReflTransGen h.Child

/-- The objects reachable from a value. -/
def objectsFrom (h : Heap) (v : Value) : Set ℕ :=
  {r | h.Reaches v (.object r)}

/-- No function is reachable from the value. -/
def FunctionFree (h : Heap) (v : Value) : Prop :=
  ∀ f, ¬ h.Reaches v (.function f)

variable {h : Heap} {v w : Value} {r s : ℕ}

/-- A reference outside the heap reads as an empty list. -/
lemma read_of_size_le (hr : ¬ r < h.size) : h.read r = .list [] := by
  rw [read, Array.getD_eq_getD_getElem?, Array.getElem?_eq_none (Nat.le_of_not_lt hr),
    Option.getD_none]

lemma objectsFrom_object_self : r ∈ h.objectsFrom (.object r) :=
  Relation.ReflTransGen.refl

/-- What a reachable object holds is reachable. -/
lemma Reaches.child (hr : r ∈ h.objectsFrom v) (hw : w ∈ (h.read r).children) : h.Reaches v w :=
  Relation.ReflTransGen.tail hr ⟨r, rfl, hw⟩

/-- What is reachable is the value itself or stands in a reachable object. -/
lemma reaches_iff : h.Reaches v w ↔ w = v ∨ ∃ r ∈ h.objectsFrom v, w ∈ (h.read r).children := by
  constructor
  · intro hw
    rcases Relation.ReflTransGen.cases_tail hw with rfl | ⟨u, hu, r, rfl, hc⟩
    · exact .inl rfl
    · exact .inr ⟨r, hu, hc⟩
  · intro hx
    rcases hx with rfl | ⟨r, hr, hw⟩
    · exact .refl
    · exact Reaches.child hr hw

/-- A set of objects with the root and all objects its members hold contains what is reachable. -/
lemma objectsFrom_subset {S : Set ℕ} (hroot : ∀ r, v = .object r → r ∈ S)
    (hclosed : ∀ r ∈ S, ∀ s, .object s ∈ (h.read r).children → s ∈ S) : h.objectsFrom v ⊆ S := by
  have key : ∀ w, h.Reaches v w → ∀ r, w = .object r → r ∈ S := by
    intro w hw
    induction hw with
    | refl => exact hroot
    | tail _ hc ih =>
      obtain ⟨s, rfl, hs⟩ := hc
      intro r heq
      subst heq
      exact hclosed s (ih s rfl) r hs
  exact fun r hr => key _ hr r rfl

/-- A value that is no object has none below it. -/
lemma objectsFrom_eq_empty (hv : ∀ r, v ≠ .object r) : h.objectsFrom v = ∅ :=
  Set.subset_empty_iff.1 (objectsFrom_subset (fun r hr => hv r hr) fun _ hr => hr.elim)

lemma FunctionFree.ne (hv : h.FunctionFree v) (f : Function) : v ≠ .function f :=
  fun heq => hv f (heq ▸ .refl)

lemma FunctionFree.child (hv : h.FunctionFree v) (hr : r ∈ h.objectsFrom v)
    (hw : w ∈ (h.read r).children) (f : Function) : w ≠ .function f :=
  fun heq => hv f (heq ▸ Reaches.child hr hw)

/-- A value is free of functions if neither it is one nor a reachable object holds one. -/
lemma functionFree_iff : h.FunctionFree v ↔
    (∀ f, v ≠ .function f) ∧
      ∀ r ∈ h.objectsFrom v, ∀ w ∈ (h.read r).children, ∀ f, w ≠ .function f := by
  constructor
  · intro hv
    exact ⟨hv.ne, fun r hr w hw => hv.child hr hw⟩
  · intro hx f hf
    obtain ⟨hroot, hheld⟩ := hx
    rcases reaches_iff.1 hf with heq | ⟨r, hr, hw⟩
    · exact hroot f heq.symm
    · exact hheld r hr _ hw f rfl

/-- A change of values that takes references to references, by `f`, carries what is reachable
along. -/
lemma Reaches.map {h' : Heap} {v' : Value} {f : ℕ → ℕ} {g : Value → Value}
    (hobject : ∀ r, g (.object r) = .object (f r)) (hroot : v' = g v)
    (hread : ∀ r ∈ h.objectsFrom v, (h'.read (f r)).children = (h.read r).children.map g)
    (hw : h.Reaches v w) : h'.Reaches v' (g w) := by
  induction hw with
  | refl => rw [hroot]; exact .refl
  | tail hu hc ih =>
    obtain ⟨r, rfl, hr⟩ := hc
    refine .tail ih ⟨f r, hobject r, ?_⟩
    rw [hread r hu]
    exact List.mem_map_of_mem hr

/-- If only references become references, whatever is reachable afterwards comes from something
reachable. -/
lemma Reaches.exists_of_map {h' : Heap} {v' : Value} {f : ℕ → ℕ} {g : Value → Value}
    (hobject : ∀ u s, g u = .object s → ∃ r, u = .object r ∧ f r = s) (hroot : v' = g v)
    (hread : ∀ r ∈ h.objectsFrom v, (h'.read (f r)).children = (h.read r).children.map g)
    {w' : Value} (hw : h'.Reaches v' w') : ∃ w, h.Reaches v w ∧ w' = g w := by
  induction hw with
  | refl => exact ⟨v, .refl, hroot⟩
  | tail _ hc ih =>
    obtain ⟨u, hu, rfl⟩ := ih
    obtain ⟨s, hs, hmem⟩ := hc
    obtain ⟨r, rfl, rfl⟩ := hobject u s hs
    rw [hread r hu] at hmem
    obtain ⟨w, hw, rfl⟩ := List.mem_map.1 hmem
    exact ⟨w, Reaches.child hu hw, rfl⟩

end Heap

/-! ## Renaming -/

/-- The value with the object it refers to renamed. -/
def Value.rename (f : ℕ → ℕ) : Value → Value
  | .object r => .object (f r)
  | v => v

/-- The object with everything it refers to renamed. -/
def Object.rename (f : ℕ → ℕ) : Object → Object
  | .list items => .list (items.map (·.rename f))
  | .map entries => .map (entries.map (·.rename f))

@[simp] lemma Value.rename_object (f : ℕ → ℕ) (r : ℕ) :
    (Value.object r).rename f = .object (f r) := rfl

@[simp] lemma Value.rename_id (v : Value) : v.rename id = v := by
  cases v <;> rfl

lemma Value.rename_rename (f g : ℕ → ℕ) (v : Value) : (v.rename f).rename g = v.rename (g ∘ f) := by
  cases v <;> rfl

/-- A renamed value is an object only if the value is. -/
lemma Value.rename_eq_object_iff {f : ℕ → ℕ} {v : Value} {s : ℕ} :
    v.rename f = .object s ↔ ∃ r, v = .object r ∧ f r = s := by
  cases v <;> simp [Value.rename]

/-- Renaming matters on the object referred to only. -/
lemma Value.rename_congr {f g : ℕ → ℕ} {v : Value} (h : ∀ r, v = .object r → f r = g r) :
    v.rename f = v.rename g := by
  cases v with
  | object r => rw [rename_object, rename_object, h r rfl]
  | _ => rfl

@[simp] lemma Object.children_rename (f : ℕ → ℕ) (o : Object) :
    (o.rename f).children = o.children.map (·.rename f) := by
  cases o <;> simp [Object.rename, Object.children]

@[simp] lemma Object.rename_id (o : Object) : o.rename id = o := by
  cases o with
  | list items => simp [Object.rename]
  | map entries =>
    simp only [Object.rename, Value.rename_id]
    rw [Dict.map_id']

lemma Object.rename_rename (f g : ℕ → ℕ) (o : Object) :
    (o.rename f).rename g = o.rename (g ∘ f) := by
  cases o with
  | list items => simp [Object.rename, Value.rename_rename]
  | map entries => simp [Object.rename, Dict.map_map, Function.comp_def, Value.rename_rename]

lemma Object.rename_congr {f g : ℕ → ℕ} {o : Object}
    (h : ∀ r, .object r ∈ o.children → f r = g r) : o.rename f = o.rename g := by
  cases o with
  | list items =>
    simp only [Object.rename]
    rw [List.map_congr_left]
    intro v hv
    exact Value.rename_congr fun r hr => h r (hr ▸ hv)
  | map entries =>
    simp only [Object.rename]
    rw [Dict.map_congr]
    intro v hv
    exact Value.rename_congr fun r hr => h r (hr ▸ hv)

/-! ## Isomorphism -/

/-- `f` takes the graph of `v` in `h` onto the graph of `v'` in `h'`. -/
structure IsomorphicVia (f : ℕ → ℕ) (h : Heap) (v : Value) (h' : Heap) (v' : Value) : Prop where
  bijOn : Set.BijOn f (h.objectsFrom v) (h'.objectsFrom v')
  root : v' = v.rename f
  contents : ∀ r ∈ h.objectsFrom v, h'.read (f r) = (h.read r).rename f

/-- The graphs of two values differ in the numbers of their objects only. -/
def Isomorphic (h : Heap) (v : Value) (h' : Heap) (v' : Value) : Prop :=
  ∃ f, IsomorphicVia f h v h' v'

namespace IsomorphicVia
variable {f : ℕ → ℕ} {h h' : Heap} {v v' : Value}

/-- A renaming that is injective on the reachable objects and fits root and contents is an
isomorphism: that it reaches exactly the other graph follows. -/
lemma of_injOn (hinj : Set.InjOn f (h.objectsFrom v)) (hroot : v' = v.rename f)
    (hread : ∀ r ∈ h.objectsFrom v, h'.read (f r) = (h.read r).rename f) :
    IsomorphicVia f h v h' v' := by
  have hchildren : ∀ r ∈ h.objectsFrom v,
      (h'.read (f r)).children = (h.read r).children.map (·.rename f) := by
    intro r hr
    rw [hread r hr, Object.children_rename]
  refine ⟨⟨?_, hinj, ?_⟩, hroot, hread⟩
  · intro r hr
    exact hr.map (Value.rename_object f) hroot hchildren
  · intro s hs
    have hobject : ∀ (u : Value) (s : ℕ), u.rename f = .object s → ∃ r, u = .object r ∧ f r = s :=
      fun _ _ => Value.rename_eq_object_iff.1
    obtain ⟨w, hw, hws⟩ := Heap.Reaches.exists_of_map hobject hroot hchildren hs
    obtain ⟨r, rfl, rfl⟩ := Value.rename_eq_object_iff.1 hws.symm
    exact ⟨r, hw, rfl⟩

/-- One step leads to corresponding values. -/
lemma step?_rename (iso : IsomorphicVia f h v h' v') {w : Value} (hw : h.Reaches v w)
    (s : Segment) : h'.step? (w.rename f) s = (h.step? w s).map (·.rename f) := by
  cases w with
  | object r =>
    have hread := iso.contents r hw
    cases s with
    | key k =>
      simp only [Heap.step?, Heap.get?, Value.rename_object, hread]
      cases h.read r with
      | list items => rfl
      | map entries => exact Dict.get?_map _ entries k
    | index i =>
      simp only [Heap.step?, Heap.index?, Value.rename_object, hread]
      cases h.read r with
      | list items => exact List.getElem?_map
      | map entries => rfl
  | _ => cases s <;> rfl

end IsomorphicVia

/-- A value without objects is by itself its graph. -/
lemma Isomorphic.of_scalar {h h' : Heap} {v : Value} (hv : ∀ r, v ≠ .object r) :
    Isomorphic h v h' v := by
  refine ⟨id, IsomorphicVia.of_injOn (Set.injOn_id _) (Value.rename_id v).symm ?_⟩
  intro r hr
  rw [Heap.objectsFrom_eq_empty hv] at hr
  exact hr.elim

namespace Heap
variable {h : Heap} {v w : Value}

/-- A step stays within what is reachable. -/
lemma Reaches.step? {s : Segment} {u : Value} (hv : h.Reaches v u) (hs : h.step? u s = some w) :
    h.Reaches v w := by
  cases u with
  | object r =>
    refine Reaches.child hv ?_
    cases s with
    | key k =>
      simp only [Heap.step?, get?] at hs
      split at hs
      · next entries hread =>
        rw [hread]
        exact Dict.mem_values_of_get? hs
      · cases hs
    | index i =>
      simp only [Heap.step?, index?] at hs
      split at hs
      · next items hread =>
        rw [hread]
        exact List.mem_of_getElem? hs
      · cases hs
  | _ => cases s <;> simp [Heap.step?, get?, index?] at hs

lemma follow?_append (h : Heap) (v : Value) (p q : List Segment) :
    h.follow? v (p ++ q) = (h.follow? v p).bind fun w => h.follow? w q := by
  induction p generalizing v with
  | nil => rfl
  | cons s p ih =>
    simp only [List.cons_append, follow?]
    cases h.step? v s with
    | none => rfl
    | some w => exact ih w

lemma follow?_concat {p : List Segment} {s : Segment} (hw : h.follow? v p = some w) :
    h.follow? v (p ++ [s]) = h.step? w s := by
  rw [follow?_append, hw]
  simp [follow?]

/-- The two paths from a value end at one object. -/
def SameObject (h : Heap) (v : Value) (p q : List Segment) : Prop :=
  ∃ r, h.follow? v p = some (.object r) ∧ h.follow? v q = some (.object r)

end Heap

namespace IsomorphicVia
variable {f : ℕ → ℕ} {h h' : Heap} {v v' : Value}

/-- A path leads to corresponding values, from any pair of them. -/
lemma follow?_rename_of_reaches (iso : IsomorphicVia f h v h' v') (p : List Segment) {w : Value}
    (hw : h.Reaches v w) : h'.follow? (w.rename f) p = (h.follow? w p).map (·.rename f) := by
  induction p generalizing w with
  | nil => rfl
  | cons s rest ih =>
    simp only [Heap.follow?]
    rw [iso.step?_rename hw]
    cases hs : h.step? w s with
    | none => rfl
    | some u => exact ih (hw.step? hs)

/-- A path leads to corresponding values. -/
lemma follow?_rename (iso : IsomorphicVia f h v h' v') (p : List Segment) :
    h'.follow? v' p = (h.follow? v p).map (·.rename f) := by
  rw [iso.root]
  exact iso.follow?_rename_of_reaches p .refl

end IsomorphicVia

/-- The value at the end of a path is reachable. -/
lemma Heap.Reaches.follow? {h : Heap} {v w : Value} (p : List Segment) {u : Value}
    (hu : h.Reaches v u) (hw : h.follow? u p = some w) : h.Reaches v w := by
  induction p generalizing u with
  | nil => cases hw; exact hu
  | cons s rest ih =>
    simp only [Heap.follow?] at hw
    obtain ⟨x, hx, hw⟩ := Option.bind_eq_some_iff.1 hw
    exact ih (hu.step? hx) hw

namespace Isomorphic
variable {h₁ h₂ h₃ : Heap} {v₁ v₂ v₃ : Value}

lemma refl (h : Heap) (v : Value) : Isomorphic h v h v :=
  ⟨id, Set.bijOn_id _, by simp, by simp⟩

lemma trans (h₁₂ : Isomorphic h₁ v₁ h₂ v₂) (h₂₃ : Isomorphic h₂ v₂ h₃ v₃) :
    Isomorphic h₁ v₁ h₃ v₃ := by
  obtain ⟨f, hf⟩ := h₁₂
  obtain ⟨g, hg⟩ := h₂₃
  refine ⟨g ∘ f, hg.bijOn.comp hf.bijOn, ?_, ?_⟩
  · rw [hg.root, hf.root, Value.rename_rename]
  · intro r hr
    rw [Function.comp_apply, hg.contents _ (hf.bijOn.mapsTo hr), hf.contents r hr,
      Object.rename_rename]

lemma symm (h₁₂ : Isomorphic h₁ v₁ h₂ v₂) : Isomorphic h₂ v₂ h₁ v₁ := by
  obtain ⟨f, hf⟩ := h₁₂
  have hinv : Set.InvOn (Function.invFunOn f (h₁.objectsFrom v₁)) f
      (h₁.objectsFrom v₁) (h₂.objectsFrom v₂) := hf.bijOn.invOn_invFunOn
  refine ⟨Function.invFunOn f (h₁.objectsFrom v₁), hf.bijOn.symm hinv.symm, ?_, ?_⟩
  · rw [hf.root, Value.rename_rename]
    nth_rewrite 1 [← Value.rename_id v₁]
    refine Value.rename_congr fun r hr => (hinv.1 ?_).symm
    rw [hr]
    exact Heap.objectsFrom_object_self
  · intro s hs
    obtain ⟨r, hr, rfl⟩ := hf.bijOn.surjOn hs
    rw [hinv.1 hr, hf.contents r hr, Object.rename_rename]
    nth_rewrite 1 [← Object.rename_id (h₁.read r)]
    exact Object.rename_congr fun s hs => (hinv.1 (Heap.Reaches.child hr hs)).symm

/-- Two paths end at one object exactly when they do in an isomorphic graph. -/
lemma sameObject_iff (h₁₂ : Isomorphic h₁ v₁ h₂ v₂) (p q : List Segment) :
    h₁.SameObject v₁ p q ↔ h₂.SameObject v₂ p q := by
  obtain ⟨f, hf⟩ := h₁₂
  simp only [Heap.SameObject, hf.follow?_rename]
  constructor
  · intro h
    obtain ⟨r, hp, hq⟩ := h
    exact ⟨f r, by rw [hp]; rfl, by rw [hq]; rfl⟩
  · intro h
    obtain ⟨s, hp, hq⟩ := h
    obtain ⟨w, hw, hws⟩ := Option.map_eq_some_iff.1 hp
    obtain ⟨u, hu, hus⟩ := Option.map_eq_some_iff.1 hq
    obtain ⟨r, rfl, rfl⟩ := Value.rename_eq_object_iff.1 hws
    obtain ⟨r', rfl, heq⟩ := Value.rename_eq_object_iff.1 hus
    have hr : r ∈ h₁.objectsFrom v₁ := Heap.Reaches.follow? p .refl hw
    have hr' : r' ∈ h₁.objectsFrom v₁ := Heap.Reaches.follow? q .refl hu
    exact ⟨r, hw, by rw [hu, hf.bijOn.injOn hr' hr heq]⟩

end Isomorphic
end WorkerHost
