import WorkerHost.Proofs.Value.Edits
import WorkerHost.Proofs.Wire.Invariance

/-!
# Edits of a decoded graph

A graph that was encoded and decoded again answers every sequence of edits as the original does.
The values that requests put into it live in the heap from the start, apart from the graph, so they
have one and the same call on both sides; objects of the graph itself are linked by their paths.

* `Wire.copies_extend`: the heap after decoding holds copies of the graph and of these values;
* `Wire.edits_indistinguishable`: after every request of a sequence the two graphs are isomorphic,
  with all that follows from it, and every change shows at the same aliases.
-/

namespace WorkerHost

/-- Nothing that can be asked of the two graphs tells them apart. -/
structure Indistinguishable (h : Heap) (v : Value) (h' : Heap) (v' : Value) : Prop where
  isomorphic : Isomorphic h v h' v'
  /-- every path leads nowhere on both sides, or to isomorphic values -/
  paths : ∀ p, Option.Rel (fun w w' => Isomorphic h w h' w') (h.follow? v p) (h'.follow? v' p)
  aliases : ∀ p q, h.SameObject v p q ↔ h'.SameObject v' p q
  display : h'.display v' = h.display v
  wire : ∃ w, Wire.encode h v = .ok w ∧ Wire.encode h' v' = .ok w

/-- A value and its copy cannot be told apart. -/
lemma Heap.Copies.indistinguishable {f : ℕ → ℕ} {S : Set ℕ} {h h' : Heap} {v : Value}
    (hc : h.Copies f S h') (hv : v.Within S) : Indistinguishable h v h' (v.rename f) := by
  have hiso := hc.isomorphic hv
  have henc := Wire.encode_eq (hc.functionFree hv)
  refine ⟨hiso, fun p => ?_, hiso.sameObject_iff, hiso.display_eq, _, henc,
    hiso.encode_eq.trans henc⟩
  rw [hc.follow?_rename hv]
  cases hp : h.follow? v p with
  | none => exact .none
  | some w => exact .some (hc.isomorphic (hc.within_of_follow? hv hp))

/-- The value is a graph of the heap without functions. -/
structure Heap.Holds (h : Heap) (v : Value) : Prop where
  functionFree : h.FunctionFree v
  allocated : ∀ r ∈ h.objectsFrom v, r < h.size

/-- The value is a graph of the heap that has no object in common with the graph of `v`. -/
structure Heap.Apart (h : Heap) (v u : Value) : Prop extends h.Holds u where
  disjoint : ∀ r ∈ h.objectsFrom u, r ∉ h.objectsFrom v

lemma Heap.Holds.within {h : Heap} {v w : Value} {S : Set ℕ} (hv : h.Holds v)
    (hS : h.objectsFrom v ⊆ S) (hw : h.Reaches v w) : w.Within S := by
  refine ⟨?_, ?_⟩
  · intro g heq
    subst heq
    exact hv.functionFree g hw
  · intro r heq
    subst heq
    exact hS hw

namespace Wire
variable {h : Heap} {v : Value}

lemma size_extend (h : Heap) (w : Wire) : (extend h w).size = h.size + w.objects.length := by
  simp [extend, Heap.size]

/-- Decoding leaves the old objects as they are. -/
lemma read_extend_of_lt {r : ℕ} (hr : r < h.size) (w : Wire) : (extend h w).read r = h.read r := by
  simp only [extend, Heap.read, Array.getD_eq_getD_getElem?]
  rw [Array.getElem?_append_left hr]

/-- The objects that requests may reach: those of `v` and of the values that come with them. -/
def requested (h : Heap) (v : Value) (qs : List Edit.Request) : Set ℕ :=
  {r | r ∈ h.objectsFrom v ∨ ∃ q ∈ qs, ∃ u, q.source = .value u ∧ r ∈ h.objectsFrom u}

open Classical in
/-- What an object is called after decoding: objects of `v` have fresh copies, all others are still
themselves. -/
noncomputable def decodedRef (h : Heap) (v : Value) (r : ℕ) : ℕ :=
  if r ∈ h.objectsFrom v then h.size + (ObjectTable.ofValue h v).number r else r

lemma decodedRef_of_mem {r : ℕ} (hr : r ∈ h.objectsFrom v) :
    decodedRef h v r = h.size + (ObjectTable.ofValue h v).number r :=
  if_pos hr

lemma decodedRef_of_not_mem {r : ℕ} (hr : r ∉ h.objectsFrom v) : decodedRef h v r = r :=
  if_neg hr

/-- Objects apart from `v` keep their names, and so do the values that refer to them. -/
lemma rename_decodedRef {u w : Value} (hu : ∀ r ∈ h.objectsFrom u, r ∉ h.objectsFrom v)
    (hw : h.Reaches u w) : w.rename (decodedRef h v) = w := by
  nth_rewrite 2 [← Value.rename_id w]
  refine Value.rename_congr fun r hr => decodedRef_of_not_mem (hu r ?_)
  subst hr
  exact hw

section
variable {qs : List Edit.Request} (hv : h.Holds v)
  (hqs : ∀ q ∈ qs, ∀ u, q.source = .value u → h.Apart v u)
include hv hqs

omit hv in
/-- An object that requests may reach is one of `v` or of a graph apart from `v`. -/
lemma mem_requested {r : ℕ} (hr : r ∈ requested h v qs) :
    r ∈ h.objectsFrom v ∨ ∃ u, h.Apart v u ∧ h.objectsFrom u ⊆ requested h v qs ∧
      r ∈ h.objectsFrom u := by
  rcases hr with hr | ⟨q, hq, u, hu, hr⟩
  · exact .inl hr
  · exact .inr ⟨u, hqs q hq u hu, fun s hs => .inr ⟨q, hq, u, hu, hs⟩, hr⟩

lemma lt_size_of_requested {r : ℕ} (hr : r ∈ requested h v qs) : r < h.size := by
  rcases mem_requested hqs hr with hr | ⟨u, hu, -, hr⟩
  · exact hv.allocated r hr
  · exact hu.allocated r hr

lemma injOn_decodedRef : Set.InjOn (decodedRef h v) (requested h v qs) := by
  have ht := ObjectTable.ofValue_coherent h v
  -- the copies stand behind the old heap and the other objects in it, so only two copies can clash
  intro r hr s hs heq
  have hrlt := lt_size_of_requested hv hqs hr
  have hslt := lt_size_of_requested hv hqs hs
  by_cases hrv : r ∈ h.objectsFrom v
  · rw [decodedRef_of_mem hrv] at heq
    by_cases hsv : s ∈ h.objectsFrom v
    · rw [decodedRef_of_mem hsv] at heq
      exact ht.number_inj (ObjectTable.mem_order_ofValue.2 hrv)
        (ObjectTable.mem_order_ofValue.2 hsv) (Nat.add_left_cancel heq)
    · rw [decodedRef_of_not_mem hsv] at heq
      omega
  · rw [decodedRef_of_not_mem hrv] at heq
    by_cases hsv : s ∈ h.objectsFrom v
    · rw [decodedRef_of_mem hsv] at heq
      omega
    · rwa [decodedRef_of_not_mem hsv] at heq

/-- After decoding, the heap holds a copy of every object of the graph, and what else requests may
reach is its own copy. -/
lemma copies_extend (hsize : (h.objectsFrom v).encard ≤ 2 ^ 32) :
    ∃ w, encode h v = .ok w ∧
      decode h w = .ok (v.rename (decodedRef h v), extend h w) ∧
      h.Copies (decodedRef h v) (requested h v qs) (extend h w) := by
  obtain ⟨w, v', h', henc, hdec, iso⟩ := decode_encode hv.functionFree hsize h
  have hdec' := decode_eq (h := h) (closed_of_encode hv.functionFree henc)
  rw [hdec] at hdec'
  cases hdec'
  -- from here on `v'` and `h'` are what `decode_eq` says, and `iso` compares with them
  have hlength : w.objects.length = (ObjectTable.ofValue h v).order.size := by
    rw [encode_eq hv.functionFree] at henc
    cases henc
    rw [List.length_map, Array.length_toList]
  have hroot : w.root.toValue h.size = v.rename (decodedRef h v) := by
    rw [iso.root]
    refine Value.rename_congr fun r hr => (decodedRef_of_mem ?_).symm
    rw [hr]
    exact Heap.objectsFrom_object_self
  refine ⟨w, henc, by rw [hdec, hroot], injOn_decodedRef hv hqs, ?_,
    fun r => lt_size_of_requested hv hqs, ?_, ?_⟩
  · intro r hr u hu
    rcases mem_requested hqs hr with hr | ⟨t, ht, hsub, hr⟩
    · exact hv.within (fun s hs => .inl hs) (Heap.Reaches.child hr hu)
    · exact ht.within hsub (Heap.Reaches.child hr hu)
  · intro r hr
    rw [size_extend, hlength]
    by_cases hrv : r ∈ h.objectsFrom v
    · rw [decodedRef_of_mem hrv]
      exact Nat.add_lt_add_left ((ObjectTable.ofValue_coherent h v).number_lt
        (ObjectTable.mem_order_ofValue.2 hrv)) _
    · rw [decodedRef_of_not_mem hrv]
      exact Nat.lt_add_right _ (lt_size_of_requested hv hqs hr)
  · intro r hr
    rcases mem_requested hqs hr with hrv | ⟨u, hu, -, hru⟩
    · rw [decodedRef_of_mem hrv, iso.contents r hrv]
      exact Object.rename_congr fun s hs => (decodedRef_of_mem (Heap.Reaches.child hrv hs)).symm
    · rw [decodedRef_of_not_mem (hu.disjoint r hru),
        read_extend_of_lt (hu.allocated r hru)]
      nth_rewrite 1 [← Object.rename_id (h.read r)]
      refine Object.rename_congr fun s hs => (decodedRef_of_not_mem ?_).symm
      exact hu.disjoint s (Heap.Reaches.child hru hs)

end

/-- Edits cannot tell a decoded graph from the original. Let a sequence of requests bring along
values that have no object in common with the graph. After every part `done` of it that was done on
both sides, the two graphs are isomorphic, with the same paths, aliases, text and wire form; and
what the next request changes shows on both sides at the same paths, which are all aliases of the
one it was made through. -/
theorem edits_indistinguishable (h : Heap) (v : Value) (qs : List Edit.Request) (hv : h.Holds v)
    (hsize : (h.objectsFrom v).encard ≤ 2 ^ 32)
    (hqs : ∀ q ∈ qs, ∀ u, q.source = .value u → h.Apart v u) :
    ∃ w v' h', encode h v = .ok w ∧ decode h w = .ok (v', h') ∧
      (∀ done, done <+: qs →
        Indistinguishable (h.requests v done) v (h'.requests v' done) v') ∧
      ∀ done q, done ++ [q] <+: qs → ∀ p,
        ((h.requests v done).ChangedAt (h.requests v (done ++ [q])) v p ↔
          (h'.requests v' done).ChangedAt (h'.requests v' (done ++ [q])) v' p) ∧
        ((h.requests v done).ChangedAt (h.requests v (done ++ [q])) v p ↔
          (h.requests v done).SameObject v q.path p ∧
            (h.requests v done).ChangedAt (h.requests v (done ++ [q])) v q.path) := by
  obtain ⟨w, henc, hdec, hcopies⟩ := copies_extend hv hqs hsize
  have hroot : v.Within (requested h v qs) := hv.within (fun r hr => .inl hr) .refl
  have hfixed : ∀ q ∈ qs, Heap.Copies.Fixed (decodedRef h v) (requested h v qs) q.source := by
    intro q hq u hu
    have hapart := hqs q hq u hu
    exact ⟨hapart.within (fun r hr => .inr ⟨q, hq, u, hu, hr⟩) .refl,
      rename_decodedRef hapart.disjoint .refl⟩
  have hdone : ∀ done, done <+: qs → (h.requests v done).Copies (decodedRef h v)
      (requested h v qs) ((extend h w).requests (v.rename (decodedRef h v)) done) :=
    fun done hpre => hcopies.requests hroot fun q hq => hfixed q (hpre.subset hq)
  refine ⟨w, _, _, henc, hdec, fun done hpre => (hdone done hpre).indistinguishable hroot, ?_⟩
  intro done q hpre p
  have hbefore := hdone done ((List.prefix_append done [q]).trans hpre)
  refine ⟨hbefore.changedAt_iff (hdone _ hpre) hroot p, ?_⟩
  simp only [Heap.requests, List.foldl_append]
  exact Heap.changedAt_request_iff

/-- The loop of `sharedLoop`, and apart from it a list with a map of its own. -/
def loopAndList : Heap :=
  ⟨sharedLoop.objects ++ #[.list [.object 3, .bool true], .map (Dict.ofList [("k", .str "x")])], 0⟩

/-- The list is set as a key of the map, linked into the root, and then added to by its path through
the other place of the map. -/
def loopRequests : List Edit.Request :=
  [⟨[.index 0], .set "list", .value (.object 2)⟩, ⟨[], .link, .found [.index 0, .key "list"]⟩,
    ⟨[.index 1, .key "list"], .push, .value (.int 5)⟩]

lemma children_loopAndList : (loopAndList.read 0).children =
      [.object 1, .object 1, .bytes [7], .float ⟨0x7FF8000000000001⟩] ∧
    (loopAndList.read 1).children = [.object 0, .int 3] ∧
    (loopAndList.read 2).children = [.object 3, .bool true] ∧
    (loopAndList.read 3).children = [.str "x"] := by
  decide

lemma objectsFrom_loopAndList : loopAndList.objectsFrom (.object 0) ⊆ {0, 1} ∧
    loopAndList.objectsFrom (.object 2) ⊆ {2, 3} := by
  obtain ⟨h₀, h₁, h₂, h₃⟩ := children_loopAndList
  constructor
  · refine Heap.objectsFrom_subset (by simp) ?_
    rintro r (rfl | rfl) s hs
    · rw [h₀] at hs
      exact .inr (by simpa using hs)
    · rw [h₁] at hs
      exact .inl (by simpa using hs)
  · refine Heap.objectsFrom_subset (by simp) ?_
    rintro r (rfl | rfl) s hs
    · rw [h₂] at hs
      exact .inr (by simpa using hs)
    · rw [h₃] at hs
      simp at hs

lemma holds_loopAndList : loopAndList.Holds (.object 0) ∧ loopAndList.Holds (.object 2) := by
  have hfunction : ∀ r < 4, ∀ w ∈ (loopAndList.read r).children, ∀ f, w ≠ .function f := by
    intro r hr w hw f heq
    subst heq
    obtain ⟨h₀, h₁, h₂, h₃⟩ := children_loopAndList
    obtain rfl | rfl | rfl | rfl : r = 0 ∨ r = 1 ∨ r = 2 ∨ r = 3 := by omega
    all_goals simp [h₀, h₁, h₂, h₃] at hw
  have hholds : ∀ v a b, v = Value.object a → a < 4 → b < 4 → loopAndList.objectsFrom v ⊆ {a, b} →
      loopAndList.Holds v := by
    intro v a b hv ha hb hsub
    have hlt : ∀ r ∈ loopAndList.objectsFrom v, r < 4 := by
      intro r hr
      rcases hsub hr with rfl | rfl
      · exact ha
      · exact hb
    refine ⟨Heap.functionFree_iff.2 ⟨by simp [hv], fun r hr => hfunction r (hlt r hr)⟩, hlt⟩
  exact ⟨hholds _ 0 1 rfl (by decide) (by decide) objectsFrom_loopAndList.1,
    hholds _ 2 3 rfl (by decide) (by decide) objectsFrom_loopAndList.2⟩

lemma apart_loopAndList : ∀ q ∈ loopRequests, ∀ u, q.source = .value u →
    loopAndList.Apart (.object 0) u := by
  have hlist : loopAndList.Apart (.object 0) (.object 2) := by
    refine ⟨holds_loopAndList.2, fun r hr hr' => ?_⟩
    have hr := objectsFrom_loopAndList.2 hr
    have hr' := objectsFrom_loopAndList.1 hr'
    simp only [Set.mem_insert_iff, Set.mem_singleton_iff] at hr hr'
    omega
  have hint : loopAndList.Apart (.object 0) (.int 5) := by
    have hnone : loopAndList.objectsFrom (.int 5) = ∅ := Heap.objectsFrom_eq_empty (by simp)
    refine ⟨⟨Heap.functionFree_iff.2 ⟨by simp, ?_⟩, ?_⟩, ?_⟩ <;> simp [hnone]
  simp only [loopRequests, List.forall_mem_cons, Edit.Source.value.injEq, reduceCtorEq]
  exact ⟨fun u hu => hu ▸ hlist, by simp, fun u hu => hu ▸ hint, by simp⟩

theorem edits_indistinguishable_loopAndList :
    loopAndList.Holds (.object 0) ∧ (loopAndList.objectsFrom (.object 0)).encard ≤ 2 ^ 32 ∧
      (∀ q ∈ loopRequests, ∀ u, q.source = .value u → loopAndList.Apart (.object 0) u) ∧
      ∃ w v' h', encode loopAndList (.object 0) = .ok w ∧ decode loopAndList w = .ok (v', h') ∧
        Indistinguishable (loopAndList.requests (.object 0) loopRequests) (.object 0)
          (h'.requests v' loopRequests) v' := by
  have hsize : (loopAndList.objectsFrom (.object 0)).encard ≤ 2 ^ 32 := by
    refine (Set.encard_le_encard objectsFrom_loopAndList.1).trans ?_
    rw [Set.encard_pair (by decide)]
    norm_num
  obtain ⟨w, v', h', henc, hdec, hdone, -⟩ := edits_indistinguishable loopAndList (.object 0)
    loopRequests holds_loopAndList.1 hsize apart_loopAndList
  exact ⟨holds_loopAndList.1, hsize, apart_loopAndList, w, v', h', henc, hdec,
    hdone loopRequests List.prefix_rfl⟩

end Wire
end WorkerHost
