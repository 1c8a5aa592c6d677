import WorkerHost.Proofs.Value.Edits

/-!
# Which values share objects

Two values share an object if some object can be reached from both. What can be reached from a value
depends on the contents of what can be reached only, so an edit shows in the values from which the
edited object can be reached, and a heap that grows leaves every value as it is.

* `Heap.objectsFrom_eq_of_read`: what can be reached where the contents agree;
* `Heap.Grows`, `Heap.Adds`: a heap with more objects, and one with a value made of new ones;
* `Heap.Adds.not_shares`: the new value shares no object with any other;
* `Heap.not_shares_edit`: an edit makes two values share an object only if it puts into one of them
  a value that shares an object with the other;
* `Heap.read_requests_of_not_shares`: edits through a value leave those alone that share no object
  with it.
-/

namespace WorkerHost.Heap

/-- The value does not refer to an object outside the heap. -/
def Allocated (h : Heap) (v : Value) : Prop :=
  ∀ r, v = .object r → r < h.size

/-- No object refers to one outside the heap. -/
def Closed (h : Heap) : Prop :=
  ∀ r, ∀ v ∈ (h.read r).children, h.Allocated v

/-- Some object can be reached from both values. -/
def Shares (h : Heap) (u v : Value) : Prop :=
  ∃ r ∈ h.objectsFrom u, r ∈ h.objectsFrom v

/-- A heap with the same objects, and perhaps more. -/
structure Grows (h h' : Heap) : Prop where
  size_le : h.size ≤ h'.size
  read_eq : ∀ r < h.size, h'.read r = h.read r

/-- A heap with the same objects, and a value with new objects only. -/
structure Adds (h : Heap) (v : Value) (h' : Heap) : Prop extends Grows h h' where
  closed : h.Closed → h'.Closed
  allocated : h'.Allocated v
  fresh : ∀ r ∈ h'.objectsFrom v, h.size ≤ r

variable {h h' : Heap} {u v w target : Value} {k : Edit.Kind}

lemma Allocated.mono (hv : h.Allocated v) (hle : h.size ≤ h'.size) : h'.Allocated v :=
  fun r hr => (hv r hr).trans_le hle

lemma Shares.symm (hs : h.Shares u v) : h.Shares v u := by
  obtain ⟨r, hu, hv⟩ := hs
  exact ⟨r, hv, hu⟩

/-! ## What can be reached -/

/-- All that can be reached in a closed heap is in it. -/
lemma Closed.lt_size (hh : h.Closed) (hv : h.Allocated v) : ∀ r ∈ h.objectsFrom v, r < h.size :=
  objectsFrom_subset (S := {r | r < h.size}) hv fun r _ s hs => hh r _ hs s rfl

/-- What can be reached depends on the contents of what can be reached only. -/
lemma objectsFrom_eq_of_read (hread : ∀ r ∈ h.objectsFrom v, h'.read r = h.read r) :
    h'.objectsFrom v = h.objectsFrom v := by
  have hsub : h'.objectsFrom v ⊆ h.objectsFrom v := by
    refine objectsFrom_subset (fun r hr => hr ▸ objectsFrom_object_self) fun r hr s hs => ?_
    rw [hread r hr] at hs
    exact Reaches.child hr hs
  refine hsub.antisymm (objectsFrom_subset (fun r hr => hr ▸ objectsFrom_object_self) ?_)
  intro r hr s hs
  rw [← hread r (hsub hr)] at hs
  exact Reaches.child hr hs

lemma Grows.refl (h : Heap) : h.Grows h :=
  ⟨le_rfl, fun _ _ => rfl⟩

lemma Grows.objectsFrom_eq (hg : h.Grows h') (hh : h.Closed) (hv : h.Allocated v) :
    h'.objectsFrom v = h.objectsFrom v :=
  objectsFrom_eq_of_read fun r hr => hg.read_eq r (hh.lt_size hv r hr)

/-- Values share no more in a heap with more objects. -/
lemma Grows.shares_iff (hg : h.Grows h') (hh : h.Closed) (hu : h.Allocated u) (hv : h.Allocated v) :
    h'.Shares u v ↔ h.Shares u v := by
  rw [Shares, Shares, hg.objectsFrom_eq hh hu, hg.objectsFrom_eq hh hv]

/-- A value made of new objects shares none with a value that was there before. -/
lemma Adds.not_shares (ha : h.Adds v h') (hh : h.Closed) (hu : h.Allocated u) :
    ¬ h'.Shares u v := by
  rw [Shares, ha.toGrows.objectsFrom_eq hh hu]
  rintro ⟨r, hr, hr'⟩
  exact (hh.lt_size hu r hr).not_ge (ha.fresh r hr')

/-! ## New objects -/

lemma read_alloc_self (h : Heap) (o : Object) : (h.alloc o).2.read h.size = o := by
  simp [alloc, read, size]

lemma grows_alloc (h : Heap) (o : Object) : h.Grows (h.alloc o).2 := by
  refine ⟨by simp [alloc, size], fun r hr => ?_⟩
  simp only [alloc, read, Array.getD_eq_getD_getElem?]
  rw [Array.getElem?_push_lt hr, Array.getElem?_eq_getElem hr]

lemma Closed.alloc (hh : h.Closed) {o : Object} (ho : ∀ v ∈ o.children, h.Allocated v) :
    (h.alloc o).2.Closed := by
  have hgrows := h.grows_alloc o
  intro r v hv
  rcases lt_trichotomy r h.size with hlt | rfl | hgt
  · rw [hgrows.read_eq r hlt] at hv
    exact (hh r v hv).mono hgrows.size_le
  · rw [read_alloc_self] at hv
    exact (ho v hv).mono hgrows.size_le
  · rw [read_of_size_le (by simpa [Heap.alloc, size] using hgt)] at hv
    cases hv

/-! ## Edits -/

@[simp] lemma size_edit (h : Heap) (target : Value) (e : Edit) :
    (h.edit target e).size = h.size := by
  cases target <;> simp [edit]

lemma read_edit_of_ne {r : ℕ} (hne : target ≠ .object r) (e : Edit) :
    (h.edit target e).read r = h.read r := by
  cases target with
  | object s => exact read_write_of_ne (fun heq => hne (congrArg Value.object heq.symm)) _
  | _ => rfl

/-- After an edit an object holds what it held, or the value that was put in. -/
lemma mem_children_edit {r : ℕ} (hv : v ∈ ((h.edit target (k.edit w)).read r).children) :
    v = w ∨ v ∈ (h.read r).children := by
  by_cases hne : target = .object r
  · subst hne
    by_cases hr : r < h.size
    · rw [edit, read_write_self hr] at hv
      exact Edit.mem_children_apply hv
    · rw [read_of_size_le (by simpa using hr)] at hv
      cases hv
  · rw [read_edit_of_ne hne] at hv
    exact .inr hv

lemma Closed.edit (hh : h.Closed) (hw : h.Allocated w) : (h.edit target (k.edit w)).Closed := by
  intro r v hv
  refine Allocated.mono (h := h) ?_ (by simp)
  rcases mem_children_edit hv with rfl | hv
  · exact hw
  · exact hh r v hv

/-- An edit does not change what can be reached from elsewhere. -/
lemma objectsFrom_edit_of_ne (hne : ∀ r ∈ h.objectsFrom v, target ≠ .object r) (e : Edit) :
    (h.edit target e).objectsFrom v = h.objectsFrom v :=
  objectsFrom_eq_of_read fun r hr => read_edit_of_ne (hne r hr) e

/-- After an edit no more can be reached than before and from the value that was put in. -/
lemma objectsFrom_edit_subset :
    (h.edit target (k.edit w)).objectsFrom v ⊆ h.objectsFrom v ∪ h.objectsFrom w := by
  refine objectsFrom_subset (fun r hr => .inl (hr ▸ objectsFrom_object_self)) fun r hr s hs => ?_
  rcases mem_children_edit hs with rfl | hs
  · exact .inr objectsFrom_object_self
  · rcases hr with hr | hr
    · exact .inl (Reaches.child hr hs)
    · exact .inr (Reaches.child hr hs)

/-- The edit puts nothing into one of the two values that shares an object with the other. -/
def KeepsApart (h : Heap) (u v target w : Value) : Prop :=
  ∀ r, target = .object r →
    (r ∈ h.objectsFrom u → ¬ h.Shares w v) ∧ (r ∈ h.objectsFrom v → ¬ h.Shares w u)

lemma KeepsApart.symm (hk : h.KeepsApart u v target w) : h.KeepsApart v u target w :=
  fun r hr => (hk r hr).symm

/-- Values that share no object share none after an edit of the one that keeps them apart. -/
lemma not_shares_edit_of_mem (hapart : ¬ h.Shares u v) {r : ℕ} (hr : r ∈ h.objectsFrom u)
    (hk : h.KeepsApart u v (.object r) w) : ¬ (h.edit (.object r) (k.edit w)).Shares u v := by
  have hv : (h.edit (.object r) (k.edit w)).objectsFrom v = h.objectsFrom v := by
    refine objectsFrom_edit_of_ne (fun s hs heq => ?_) _
    cases heq
    exact hapart ⟨r, hr, hs⟩
  rw [Shares, hv]
  rintro ⟨s, hs, hs'⟩
  rcases objectsFrom_edit_subset hs with hs | hs
  · exact hapart ⟨s, hs, hs'⟩
  · exact (hk r rfl).1 hr ⟨s, hs, hs'⟩

/-- Values that share no object share none after an edit that keeps them apart. -/
lemma not_shares_edit (hapart : ¬ h.Shares u v) (hk : h.KeepsApart u v target w) :
    ¬ (h.edit target (k.edit w)).Shares u v := by
  by_cases hu : ∃ r ∈ h.objectsFrom u, target = .object r
  · obtain ⟨r, hr, rfl⟩ := hu
    exact not_shares_edit_of_mem hapart hr hk
  by_cases hv : ∃ r ∈ h.objectsFrom v, target = .object r
  · obtain ⟨r, hr, rfl⟩ := hv
    exact mt Shares.symm (not_shares_edit_of_mem (mt Shares.symm hapart) hr hk.symm)
  -- the edited object can be reached from neither of them
  have hsame (x : Value) (hx : ¬ ∃ r ∈ h.objectsFrom x, target = .object r) :
      (h.edit target (k.edit w)).objectsFrom x = h.objectsFrom x :=
    objectsFrom_edit_of_ne (fun r hr heq => hx ⟨r, hr, heq⟩) _
  rwa [Shares, hsame u hu, hsame v hv]

/-! ## Requests -/

variable {root : Value} {q : Edit.Request} {qs : List Edit.Request}

/-- A request that puts somewhere what is in its root or shares no object with `u` makes nothing
share an object with `u`. -/
lemma not_shares_request (hroot : ¬ h.Shares u root)
    (hq : ∀ x, q.source = .value x → ¬ h.Shares u x) (hv : ¬ h.Shares u v) :
    ¬ (h.request root q).Shares u v := by
  unfold request
  split
  · next target w htarget hsource =>
    have hw : ¬ h.Shares w u := by
      cases hs : q.source with
      | value x =>
        rw [hs] at hsource
        cases hsource
        exact mt Shares.symm (hq w hs)
      | found path =>
        rw [hs] at hsource
        rintro ⟨r, hr, hu⟩
        exact hroot ⟨r, hu, (Reaches.follow? path .refl hsource).trans hr⟩
    refine not_shares_edit hv fun r hr => ⟨fun hu => ?_, fun _ => hw⟩
    -- what is edited can be reached from the root
    subst hr
    exact absurd ⟨r, hu, Reaches.follow? q.path .refl htarget⟩ hroot
  · exact hv

lemma read_request_of_not_shares (hroot : ¬ h.Shares u root) :
    ∀ r ∈ h.objectsFrom u, (h.request root q).read r = h.read r :=
  fun r hr => read_request_of_ne fun hfollow =>
    hroot ⟨r, hr, Reaches.follow? q.path .refl hfollow⟩

/-- Edits through a value leave those alone that share no object with it, nor with what is put
somewhere. -/
theorem read_requests_of_not_shares (hroot : ¬ h.Shares u root)
    (hqs : ∀ q ∈ qs, ∀ x, q.source = .value x → ¬ h.Shares u x) :
    ∀ r ∈ h.objectsFrom u, (h.requests root qs).read r = h.read r := by
  induction qs generalizing h with
  | nil => exact fun _ _ => rfl
  | cons q qs ih =>
    intro r hr
    obtain ⟨hq, hrest⟩ := List.forall_mem_cons.1 hqs
    have hsame : (h.request root q).objectsFrom u = h.objectsFrom u :=
      objectsFrom_eq_of_read (read_request_of_not_shares hroot)
    have hlater := ih (not_shares_request hroot hq hroot)
      (fun q' hq' x hx => not_shares_request hroot hq (hrest q' hq' x hx)) r (hsame ▸ hr)
    exact hlater.trans (read_request_of_not_shares hroot r hr)

end WorkerHost.Heap
