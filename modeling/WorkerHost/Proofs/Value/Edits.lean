import WorkerHost.Proofs.Value.Display

/-!
# Edits addressed by paths

An `Edit.Request` names an object by a path from a root, and what to put there by value or by
another path. `Heap.Copies f S h h'` is the relation between two heaps under which such requests
cannot tell them apart: `h'` holds a copy of every object of `S`, called by `f`. One request keeps
it, so every sequence of requests does, with the same `f` and `S`.

* `Heap.Copies.request`, `Heap.Copies.requests`: requests keep copies;
* `Heap.Copies.isomorphic`: values within copied objects are isomorphic to their copies;
* `Heap.changedAt_request_iff`: a change shows at the aliases of the path it was made through, and
  nowhere else.
-/

namespace WorkerHost

/-! ## Requests -/

namespace Edit

/-- What a request puts into an object: a value that comes with it, or the one at the end of a path.
-/
inductive Source where
  | value (v : Value)
  | found (path : List Segment)

/-- How a request puts it there. -/
inductive Kind where
  | push
  | set (key : String)
  | link

/-- The edit that puts a value into an object. -/
def Kind.edit : Kind → Value → Edit
  | .push, v => .push v
  | .set key, v => .set key v
  | .link, v => .link v

/-- An edit of the object at the end of a path. -/
structure Request where
  path : List Segment
  kind : Kind
  source : Source

end Edit

namespace Heap

/-- The value that a request puts somewhere, with paths from `root`. -/
def source? (h : Heap) (root : Value) : Edit.Source → Option Value
  | .value v => some v
  | .found path => h.follow? root path

/-- The heap after a request. One with a path that leads nowhere changes nothing. -/
def request (h : Heap) (root : Value) (q : Edit.Request) : Heap :=
  match h.follow? root q.path, h.source? root q.source with
  | some target, some v => h.edit target (q.kind.edit v)
  | _, _ => h

/-- The heap after a sequence of requests. -/
def requests (h : Heap) (root : Value) (qs : List Edit.Request) : Heap :=
  qs.foldl (fun h q => h.request root q) h

/-- The path leads to an object with other contents than in the heap before. -/
def ChangedAt (before after : Heap) (root : Value) (p : List Segment) : Prop :=
  ∃ r, before.follow? root p = some (.object r) ∧ after.read r ≠ before.read r

@[simp] lemma size_write (h : Heap) (r : ℕ) (o : Object) : (h.write r o).size = h.size := by
  simp [write, size]

lemma read_write_of_ne {h : Heap} {r s : ℕ} (hne : s ≠ r) (o : Object) :
    (h.write r o).read s = h.read s := by
  simp only [write, read, Array.getD_eq_getD_getElem?]
  rw [Array.getElem?_setIfInBounds_ne (Ne.symm hne)]

lemma read_write_self {h : Heap} {r : ℕ} (hr : r < h.size) (o : Object) :
    (h.write r o).read r = o := by
  simp only [write, read, Array.getD_eq_getD_getElem?]
  rw [Array.getElem?_setIfInBounds_self_of_lt hr, Option.getD_some]

/-- A request changes the object at the end of its path only. -/
lemma read_request_of_ne {h : Heap} {root : Value} {q : Edit.Request} {r : ℕ}
    (hne : h.follow? root q.path ≠ some (.object r)) : (h.request root q).read r = h.read r := by
  unfold request
  split
  · next target v htarget _ =>
    cases target with
    | object s =>
      refine read_write_of_ne ?_ _
      intro heq
      exact hne (heq ▸ htarget)
    | _ => rfl
  · rfl

/-- A change that is made through one value shows in another where that leads to the same object,
and nowhere else. -/
theorem changedAt_request_of_iff {h : Heap} {root v : Value} {q : Edit.Request}
    {p : List Segment} : h.ChangedAt (h.request root q) v p ↔
      (∃ r, h.follow? root q.path = some (.object r) ∧ h.follow? v p = some (.object r)) ∧
        h.ChangedAt (h.request root q) root q.path := by
  constructor
  · intro hx
    obtain ⟨r, hp, hr⟩ := hx
    by_cases hq : h.follow? root q.path = some (.object r)
    · exact ⟨⟨r, hq, hp⟩, r, hq, hr⟩
    · exact absurd (read_request_of_ne hq) hr
  · intro hx
    obtain ⟨⟨r, hq, hp⟩, s, hs, hr⟩ := hx
    cases hq.symm.trans hs
    exact ⟨r, hp, hr⟩

/-- A change shows at the aliases of the path it was made through, and nowhere else. -/
theorem changedAt_request_iff {h : Heap} {root : Value} {q : Edit.Request} {p : List Segment} :
    h.ChangedAt (h.request root q) root p ↔
      h.SameObject root q.path p ∧ h.ChangedAt (h.request root q) root q.path :=
  changedAt_request_of_iff

end Heap

/-! ## Edits and renaming -/

/-- The value is no function, and if it is an object, one of `S`. -/
structure Value.Within (S : Set ℕ) (v : Value) : Prop where
  ne_function : ∀ f, v ≠ .function f
  mem : ∀ r, v = .object r → r ∈ S

/-- Objects that refer to objects of `S` only are told apart by their renamed contents. -/
lemma Object.rename_inj {f : ℕ → ℕ} {S : Set ℕ} (hf : Set.InjOn f S) {o o' : Object}
    (ho : ∀ v ∈ o.children, v.Within S) (ho' : ∀ v ∈ o'.children, v.Within S)
    (heq : o.rename f = o'.rename f) : o = o' := by
  -- on `S` the renaming can be taken back
  have hback : ∀ o : Object, (∀ v ∈ o.children, v.Within S) →
      (o.rename f).rename (Function.invFunOn f S) = o := by
    intro o ho
    rw [Object.rename_rename]
    nth_rewrite 2 [← Object.rename_id o]
    exact Object.rename_congr fun r hr => hf.leftInvOn_invFunOn ((ho _ hr).mem r rfl)
  rw [← hback o ho, heq, hback o' ho']

namespace Edit

/-- An edit adds no other value than its own. -/
lemma mem_children_apply {k : Kind} {v w : Value} {o : Object}
    (hw : w ∈ ((k.edit v).apply o).children) : w = v ∨ w ∈ o.children := by
  have hinsert : ∀ (d : Dict Value) (key : String), w ∈ (d.insert key v).values →
      w = v ∨ w ∈ d.values := by
    intro d key hmem
    obtain ⟨e, he, rfl⟩ := List.mem_map.1 hmem
    rcases Dict.key_of_mem_insertEntry he with rfl | he
    · exact .inl rfl
    · exact .inr (List.mem_map_of_mem he)
  cases k <;> cases o <;>
    simp only [Kind.edit, apply, Object.children, List.mem_append, List.mem_singleton] at hw ⊢
  case set.map key d => exact hinsert d key hw
  case link.map d => exact hinsert d "link" hw
  all_goals tauto

/-- A renamed object is edited as the object is. -/
lemma apply_rename (f : ℕ → ℕ) (k : Kind) (v : Value) (o : Object) :
    (k.edit (v.rename f)).apply (o.rename f) = ((k.edit v).apply o).rename f := by
  cases k <;> cases o <;> simp [Kind.edit, apply, Object.rename, Dict.insert_map]

end Edit

/-! ## Copies -/

namespace Heap

/-- The objects of `S` hold each other only, and the second heap has a copy of each, called by `f`.
-/
structure Copies (f : ℕ → ℕ) (S : Set ℕ) (h h' : Heap) : Prop where
  injOn : Set.InjOn f S
  closed : ∀ r ∈ S, ∀ w ∈ (h.read r).children, w.Within S
  allocated : ∀ r ∈ S, r < h.size
  copy_allocated : ∀ r ∈ S, f r < h'.size
  contents : ∀ r ∈ S, h'.read (f r) = (h.read r).rename f

namespace Copies
variable {f : ℕ → ℕ} {S : Set ℕ} {h h' : Heap} {v : Value}

/-- What a value within copied objects leads to is within them. -/
lemma within_of_reaches (hc : Copies f S h h') (hv : v.Within S) {w : Value} (hw : h.Reaches v w) :
    w.Within S := by
  induction hw with
  | refl => exact hv
  | tail _ hchild ih =>
    obtain ⟨r, rfl, hr⟩ := hchild
    exact hc.closed r (ih.mem r rfl) _ hr

lemma isomorphicVia (hc : Copies f S h h') (hv : v.Within S) :
    IsomorphicVia f h v h' (v.rename f) := by
  have hsub : h.objectsFrom v ⊆ S := fun r hr => (hc.within_of_reaches hv hr).mem r rfl
  exact .of_injOn (hc.injOn.mono hsub) rfl fun r hr => hc.contents r (hsub hr)

/-- A value within copied objects is isomorphic to its copy. -/
lemma isomorphic (hc : Copies f S h h') (hv : v.Within S) : Isomorphic h v h' (v.rename f) :=
  ⟨f, hc.isomorphicVia hv⟩

lemma functionFree (hc : Copies f S h h') (hv : v.Within S) : h.FunctionFree v :=
  fun g hg => (hc.within_of_reaches hv hg).ne_function g rfl

/-- A path leads to a value within copied objects on one side and to its copy on the other. -/
lemma follow?_rename (hc : Copies f S h h') (hv : v.Within S) (p : List Segment) :
    h'.follow? (v.rename f) p = (h.follow? v p).map (·.rename f) :=
  (hc.isomorphicVia hv).follow?_rename p

lemma within_of_follow? (hc : Copies f S h h') (hv : v.Within S) {p : List Segment} {w : Value}
    (hw : h.follow? v p = some w) : w.Within S :=
  hc.within_of_reaches hv (Reaches.follow? p .refl hw)

/-- The same edit of an object and of its copy keeps copies. -/
lemma edit (hc : Copies f S h h') {target : Value} (htarget : target.Within S) (hv : v.Within S)
    (k : Edit.Kind) :
    Copies f S (h.edit target (k.edit v)) (h'.edit (target.rename f) (k.edit (v.rename f))) := by
  cases target with
  | object r =>
    have hr : r ∈ S := htarget.mem r rfl
    -- only the edited object reads differently, and only its copy on the other side
    have hread : ∀ s ∈ S, (h.edit (.object r) (k.edit v)).read s =
        if s = r then (k.edit v).apply (h.read r) else h.read s := by
      intro s hs
      split
      · next heq => rw [heq]; exact read_write_self (hc.allocated r hr) _
      · next hne => exact read_write_of_ne hne _
    refine ⟨hc.injOn, ?_, ?_, ?_, ?_⟩
    · intro s hs w hw
      rw [hread s hs] at hw
      split at hw
      · rcases Edit.mem_children_apply hw with rfl | hw
        · exact hv
        · exact hc.closed r hr w hw
      · exact hc.closed s hs w hw
    · intro s hs
      rw [Heap.edit, size_write]
      exact hc.allocated s hs
    · intro s hs
      rw [Value.rename_object, Heap.edit, size_write]
      exact hc.copy_allocated s hs
    · intro s hs
      rw [hread s hs]
      split
      · next heq =>
        rw [heq, ← Edit.apply_rename, ← hc.contents r hr]
        exact read_write_self (hc.copy_allocated r hr) _
      · next hne =>
        have hne' : f s ≠ f r := fun heq => hne (hc.injOn hs hr heq)
        exact (read_write_of_ne hne' _).trans (hc.contents s hs)
  | _ => exact hc

/-- A value that comes with the source is within `S` and called on both sides alike. -/
def Fixed (f : ℕ → ℕ) (S : Set ℕ) (s : Edit.Source) : Prop :=
  ∀ u, s = .value u → u.Within S ∧ u.rename f = u

lemma source?_rename (hc : Copies f S h h') (hv : v.Within S) {s : Edit.Source} (hs : Fixed f S s) :
    h'.source? (v.rename f) s = (h.source? v s).map (·.rename f) := by
  cases s with
  | value u => exact congrArg some (hs u rfl).2.symm
  | found p => exact hc.follow?_rename hv p

lemma within_of_source? (hc : Copies f S h h') (hv : v.Within S) {s : Edit.Source}
    (hs : Fixed f S s) {w : Value} (hw : h.source? v s = some w) : w.Within S := by
  cases s with
  | value u =>
    cases hw
    exact (hs w rfl).1
  | found p => exact hc.within_of_follow? hv hw

/-- A request keeps copies. -/
lemma request (hc : Copies f S h h') (hv : v.Within S) {q : Edit.Request}
    (hq : Fixed f S q.source) : Copies f S (h.request v q) (h'.request (v.rename f) q) := by
  unfold Heap.request
  rw [hc.follow?_rename hv, hc.source?_rename hv hq]
  cases htarget : h.follow? v q.path with
  | none => exact hc
  | some target =>
    cases hsource : h.source? v q.source with
    | none => exact hc
    | some w =>
      exact hc.edit (hc.within_of_follow? hv htarget) (hc.within_of_source? hv hq hsource) q.kind

/-- A sequence of requests keeps copies. -/
theorem requests (hc : Copies f S h h') (hv : v.Within S) {qs : List Edit.Request}
    (hqs : ∀ q ∈ qs, Fixed f S q.source) :
    Copies f S (h.requests v qs) (h'.requests (v.rename f) qs) := by
  induction qs generalizing h h' with
  | nil => exact hc
  | cons q qs ih =>
    exact ih (hc.request hv (hqs q List.mem_cons_self)) fun q' hq' =>
      hqs q' (List.mem_cons_of_mem _ hq')

/-- A change shows at the same paths in the copy. -/
lemma changedAt_iff {k k' : Heap} (hc : Copies f S h h') (hk : Copies f S k k') (hv : v.Within S)
    (p : List Segment) : h.ChangedAt k v p ↔ h'.ChangedAt k' (v.rename f) p := by
  have hobject : ∀ r, h.follow? v p = some (.object r) →
      (k'.read (f r) ≠ h'.read (f r) ↔ k.read r ≠ h.read r) := by
    intro r hr
    have hr : r ∈ S := (hc.within_of_follow? hv hr).mem r rfl
    rw [hk.contents r hr, hc.contents r hr]
    refine not_congr ⟨Object.rename_inj hc.injOn (hk.closed r hr) (hc.closed r hr), ?_⟩
    exact congrArg (Object.rename f)
  constructor
  · intro hx
    obtain ⟨r, hr, hne⟩ := hx
    refine ⟨f r, ?_, (hobject r hr).2 hne⟩
    rw [hc.follow?_rename hv, hr]
    rfl
  · intro hx
    obtain ⟨s, hs, hne⟩ := hx
    rw [hc.follow?_rename hv] at hs
    obtain ⟨w, hw, hws⟩ := Option.map_eq_some_iff.1 hs
    obtain ⟨r, rfl, rfl⟩ := Value.rename_eq_object_iff.1 hws
    exact ⟨r, hw, (hobject r hw).1 hne⟩

end Copies
end Heap
end WorkerHost
