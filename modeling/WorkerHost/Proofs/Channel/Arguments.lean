import WorkerHost.Channel.Message
import WorkerHost.Proofs.Wire.Edits
import WorkerHost.Proofs.Wire.Placement

/-!
# The arguments of a call

Arguments travel as the members of one list, so they are one graph with several roots.
`JointlyVia` compares such graphs: one renaming fits every root, so what two arguments share on one
side they share on the other. The list itself is a fresh object that no argument reaches, and an
isomorphism of two lists is one of their members (`JointlyVia.of_list`).

* `packArgs_roundTrip`: arguments without functions arrive as a jointly isomorphic list, two lists
  of one wire form are jointly isomorphic, and reading arguments fails exactly when decoding does;
* `packArgs_isOk_iff`: arguments can be packed exactly if no function is reachable from any.
-/

namespace WorkerHost

/-! ## Several values at once -/

namespace Heap

/-- The objects reachable from any of the values. -/
def objectsFromAny (h : Heap) (vs : List Value) : Set ℕ :=
  {r | ∃ v ∈ vs, r ∈ h.objectsFrom v}

/-- The value at the end of a path from one of several values. -/
def followAt? (h : Heap) (vs : List Value) (i : ℕ) (p : List Segment) : Option Value :=
  vs[i]?.bind fun v => h.follow? v p

/-- Two paths, each from one of several values, end at one object. -/
def Shared (h : Heap) (vs : List Value) (i : ℕ) (p : List Segment) (j : ℕ) (q : List Segment) :
    Prop :=
  ∃ r, h.followAt? vs i p = some (.object r) ∧ h.followAt? vs j q = some (.object r)

/-- The object at the end of a path is reachable. -/
lemma mem_objectsFromAny_of_followAt? {h : Heap} {vs : List Value} {i : ℕ} {p : List Segment}
    {r : ℕ} (hr : h.followAt? vs i p = some (.object r)) : r ∈ h.objectsFromAny vs := by
  obtain ⟨v, hv, hp⟩ := Option.bind_eq_some_iff.1 hr
  exact ⟨v, List.mem_of_getElem? hv, Reaches.follow? p .refl hp⟩

end Heap

/-- `f` takes the graphs of the values `vs` in `h`, all together, onto those of `vs'` in `h'`. -/
structure JointlyVia (f : ℕ → ℕ) (h : Heap) (vs : List Value) (h' : Heap) (vs' : List Value) :
    Prop where
  bijOn : Set.BijOn f (h.objectsFromAny vs) (h'.objectsFromAny vs')
  roots : vs' = vs.map (·.rename f)
  contents : ∀ r ∈ h.objectsFromAny vs, h'.read (f r) = (h.read r).rename f

/-- The graphs of two lists of values, each as one graph with several roots, differ in the numbers
of their objects only. -/
def JointlyIsomorphic (h : Heap) (vs : List Value) (h' : Heap) (vs' : List Value) : Prop :=
  ∃ f, JointlyVia f h vs h' vs'

namespace JointlyVia
variable {f : ℕ → ℕ} {h h' : Heap} {vs vs' : List Value} {v : Value}

/-- The one renaming fits the graph of every value. -/
lemma isomorphicVia (hinj : Set.InjOn f (h.objectsFromAny vs))
    (hread : ∀ r ∈ h.objectsFromAny vs, h'.read (f r) = (h.read r).rename f) (hv : v ∈ vs) :
    IsomorphicVia f h v h' (v.rename f) :=
  .of_injOn (hinj.mono fun r hr => (⟨v, hv, hr⟩ : r ∈ h.objectsFromAny vs)) rfl
    fun r hr => hread r ⟨v, hv, hr⟩

/-- As for a single value, that exactly the other graph is reached follows. -/
lemma of_injOn (hinj : Set.InjOn f (h.objectsFromAny vs)) (hroots : vs' = vs.map (·.rename f))
    (hread : ∀ r ∈ h.objectsFromAny vs, h'.read (f r) = (h.read r).rename f) :
    JointlyVia f h vs h' vs' := by
  refine ⟨⟨?_, hinj, ?_⟩, hroots, hread⟩
  · rintro r ⟨v, hv, hr⟩
    have iso := isomorphicVia hinj hread hv
    exact ⟨v.rename f, hroots ▸ List.mem_map_of_mem hv, iso.bijOn.mapsTo hr⟩
  · rintro s ⟨v', hv', hs⟩
    rw [hroots] at hv'
    obtain ⟨v, hv, rfl⟩ := List.mem_map.1 hv'
    obtain ⟨r, hr, rfl⟩ := (isomorphicVia hinj hread hv).bijOn.surjOn hs
    exact ⟨r, ⟨v, hv, hr⟩, rfl⟩

lemma single (hj : JointlyVia f h vs h' vs') (hv : v ∈ vs) : IsomorphicVia f h v h' (v.rename f) :=
  isomorphicVia hj.bijOn.injOn hj.contents hv

/-- Values of the same kinds stand in the same order. -/
lemma map_kind (hj : JointlyVia f h vs h' vs') : vs'.map h'.kind = vs.map h.kind := by
  rw [hj.roots, List.map_map]
  refine List.map_congr_left fun v hv => ?_
  cases v with
  | object r =>
    show (h'.read (f r)).kind = (h.read r).kind
    rw [hj.contents r ⟨_, hv, Heap.objectsFrom_object_self⟩]
    cases h.read r <;> rfl
  | _ => rfl

/-- A path from a value leads to the value that corresponds. -/
lemma followAt?_rename (hj : JointlyVia f h vs h' vs') (i : ℕ) (p : List Segment) :
    h'.followAt? vs' i p = (h.followAt? vs i p).map (·.rename f) := by
  unfold Heap.followAt?
  rw [hj.roots, List.getElem?_map]
  cases hv : vs[i]? with
  | none => rfl
  | some v => exact (hj.single (List.mem_of_getElem? hv)).follow?_rename p

end JointlyVia

/-- Two paths, from one value or from two, end at one object exactly when they do on the other
side. -/
lemma JointlyIsomorphic.shared_iff {h h' : Heap} {vs vs' : List Value}
    (hj : JointlyIsomorphic h vs h' vs') (i j : ℕ) (p q : List Segment) :
    h.Shared vs i p j q ↔ h'.Shared vs' i p j q := by
  obtain ⟨f, hf⟩ := hj
  simp only [Heap.Shared, hf.followAt?_rename]
  constructor
  · rintro ⟨r, hp, hq⟩
    exact ⟨f r, by rw [hp]; rfl, by rw [hq]; rfl⟩
  · rintro ⟨s, hp, hq⟩
    obtain ⟨u, hu, hus⟩ := Option.map_eq_some_iff.1 hp
    obtain ⟨w, hw, hws⟩ := Option.map_eq_some_iff.1 hq
    obtain ⟨r, rfl, rfl⟩ := Value.rename_eq_object_iff.1 hus
    obtain ⟨t, rfl, heq⟩ := Value.rename_eq_object_iff.1 hws
    have hinj := hf.bijOn.injOn (Heap.mem_objectsFromAny_of_followAt? hw)
      (Heap.mem_objectsFromAny_of_followAt? hu) heq
    exact ⟨r, hu, by rw [hw, hinj]⟩

/-! ## The list that holds the arguments -/

namespace Heap
variable {h : Heap} {vs : List Value} {v w : Value} {r : ℕ}

lemma newList_fst : (h.newList vs).1 = .object h.size := rfl

lemma read_newList_self : (h.newList vs).2.read h.size = .list vs := by
  simp [newList, alloc, read, size]

lemma read_newList_of_lt (hr : r < h.size) : (h.newList vs).2.read r = h.read r := by
  simp only [newList, alloc, read, Array.getD_eq_getD_getElem?, Array.getElem?_push]
  rw [if_neg (show r ≠ h.objects.size from Nat.ne_of_lt hr)]

/-- An object that holds something is in the heap. -/
lemma lt_size_of_mem_children (hw : w ∈ (h.read r).children) : r < h.size := by
  by_contra hr
  rw [read_of_size_le hr] at hw
  exact absurd hw List.not_mem_nil

/-- A new list takes nothing away from what is reachable. -/
lemma Reaches.newList (hw : h.Reaches v w) : (h.newList vs).2.Reaches v w := by
  induction hw with
  | refl => exact .refl
  | tail _ hc ih =>
    obtain ⟨r, rfl, hr⟩ := hc
    exact ih.tail ⟨r, rfl, by rwa [read_newList_of_lt (lt_size_of_mem_children hr)]⟩

/-- It adds nothing to what a value of the heap reaches. -/
lemma objectsFrom_newList (hv : ∀ r ∈ h.objectsFrom v, r < h.size) :
    (h.newList vs).2.objectsFrom v = h.objectsFrom v := by
  refine subset_antisymm (objectsFrom_subset ?_ ?_) fun r hr => Reaches.newList hr
  · rintro r rfl
    exact objectsFrom_object_self
  · intro r hr s hs
    rw [read_newList_of_lt (hv r hr)] at hs
    exact Reaches.child hr hs

/-- The list reaches itself and what its members reach. -/
lemma objectsFrom_newList_self (hvs : ∀ v ∈ vs, ∀ r ∈ h.objectsFrom v, r < h.size) :
    (h.newList vs).2.objectsFrom (.object h.size) = insert h.size (h.objectsFromAny vs) := by
  refine subset_antisymm (objectsFrom_subset ?_ ?_) ?_
  · rintro r ⟨⟩
    exact Set.mem_insert _ _
  · rintro r (rfl | ⟨v, hv, hr⟩) s hs
    · rw [read_newList_self] at hs
      exact .inr ⟨_, hs, objectsFrom_object_self⟩
    · rw [read_newList_of_lt (hvs v hv r hr)] at hs
      exact .inr ⟨v, hv, Reaches.child hr hs⟩
  · rintro r (rfl | ⟨v, hv, hr⟩)
    · exact objectsFrom_object_self
    · have hmem : v ∈ ((h.newList vs).2.read h.size).children := by
        rw [read_newList_self]
        exact hv
      exact (Reaches.child objectsFrom_object_self hmem).trans (Reaches.newList hr)

lemma functionFree_newList (hvs : ∀ v ∈ vs, h.Holds v) :
    (h.newList vs).2.FunctionFree (.object h.size) := by
  refine functionFree_iff.2 ⟨by simp, ?_⟩
  rw [objectsFrom_newList_self fun v hv => (hvs v hv).allocated]
  rintro r (rfl | ⟨v, hv, hr⟩) w hw
  · rw [read_newList_self] at hw
    exact (hvs w hw).functionFree.ne
  · rw [read_newList_of_lt ((hvs v hv).allocated r hr)] at hw
    exact (hvs v hv).functionFree.child hr hw

/-- The list is one object more. -/
lemma encard_newList (hvs : ∀ v ∈ vs, h.Holds v) (hsize : (h.objectsFromAny vs).encard < 2 ^ 32) :
    ((h.newList vs).2.objectsFrom (.object h.size)).encard ≤ 2 ^ 32 := by
  rw [objectsFrom_newList_self fun v hv => (hvs v hv).allocated]
  exact (Set.encard_insert_le _ _).trans (Order.add_one_le_of_lt hsize)

end Heap

/-- An isomorphism that starts at the list of some values is at its other end again at a list, and
relates the members of the two. -/
lemma JointlyVia.of_list {f : ℕ → ℕ} {h h' : Heap} {vs : List Value} {v' : Value}
    (hvs : ∀ v ∈ vs, ∀ r ∈ h.objectsFrom v, r < h.size)
    (iso : IsomorphicVia f (h.newList vs).2 (h.newList vs).1 h' v') :
    v' = .object (f h.size) ∧ h'.read (f h.size) = .list (vs.map (·.rename f)) ∧
      JointlyVia f h vs h' (vs.map (·.rename f)) := by
  rw [Heap.newList_fst] at iso
  have hlist : h.size ∈ (h.newList vs).2.objectsFrom (.object h.size) :=
    Heap.objectsFrom_object_self
  have hsub : h.objectsFromAny vs ⊆ (h.newList vs).2.objectsFrom (.object h.size) := by
    rw [Heap.objectsFrom_newList_self hvs]
    exact Set.subset_insert _ _
  refine ⟨iso.root, ?_, .of_injOn (iso.bijOn.injOn.mono hsub) rfl ?_⟩
  · rw [iso.contents _ hlist, Heap.read_newList_self]
    rfl
  · rintro r ⟨v, hv, hr⟩
    rw [iso.contents r (hsub ⟨v, hv, hr⟩), Heap.read_newList_of_lt (hvs v hv r hr)]

/-- Two lists are isomorphic only if their members are: the list of one side, which no member
reaches, corresponds to the list of the other. -/
lemma JointlyIsomorphic.of_lists {h h' : Heap} {vs vs' : List Value}
    (hvs : ∀ v ∈ vs, ∀ r ∈ h.objectsFrom v, r < h.size)
    (hvs' : ∀ v ∈ vs', ∀ r ∈ h'.objectsFrom v, r < h'.size)
    (iso : Isomorphic (h.newList vs).2 (h.newList vs).1 (h'.newList vs').2 (h'.newList vs').1) :
    JointlyIsomorphic h vs h' vs' := by
  obtain ⟨f, iso⟩ := iso
  obtain ⟨hroot, hmembers, hj⟩ := JointlyVia.of_list hvs iso
  obtain hroot : h'.size = f h.size := Value.object.inj hroot
  have hroots : vs' = vs.map (·.rename f) := by
    rw [← hroot, Heap.read_newList_self] at hmembers
    exact Object.list.inj hmembers
  refine ⟨f, .of_injOn hj.bijOn.injOn hroots fun r hr => ?_⟩
  obtain ⟨v', hv', hr'⟩ := hj.bijOn.mapsTo hr
  rw [← hroots] at hv'
  rw [Heap.objectsFrom_newList (hvs' v' hv')] at hr'
  rw [← hj.contents r hr, Heap.read_newList_of_lt (hvs' v' hv' _ hr')]

/-! ## Packing and unpacking -/

section
variable {h : Heap} {xs : List Value}

/-- A function that any of the arguments reaches keeps them from being packed. -/
lemma packArgs_eq_error {v : Value} {f : Function} (hv : v ∈ xs)
    (hf : h.Reaches v (.function f)) : ∃ e, packArgs h xs = .error e := by
  cases hpack : packArgs h xs with
  | error e => exact ⟨e, rfl⟩
  | ok w =>
    have hmember : v ∈ ((h.newList xs).2.read h.size).children := by
      rw [Heap.read_newList_self]
      exact hv
    have hreach : (h.newList xs).2.Reaches (h.newList xs).1 (.function f) :=
      (Heap.Reaches.child Heap.objectsFrom_object_self hmember).trans hf.newList
    exact absurd hreach (Wire.functionFree_of_encode hpack f)

/-- Arguments can be packed exactly if no function is reachable from any of them. -/
theorem packArgs_isOk_iff (hxs : ∀ v ∈ xs, ∀ r ∈ h.objectsFrom v, r < h.size) :
    (∃ w, packArgs h xs = .ok w) ↔ ∀ v ∈ xs, h.FunctionFree v := by
  constructor
  · rintro ⟨w, hw⟩ v hv f hf
    obtain ⟨e, he⟩ := packArgs_eq_error hv hf
    rw [he] at hw
    cases hw
  · intro hfree
    exact ⟨_, Wire.encode_eq (Heap.functionFree_newList fun v hv => ⟨hfree v hv, hxs v hv⟩)⟩

/-- The arguments that a value stands for: the members of a list, none for null, else itself. -/
def argsOf (h : Heap) : Value → List Value
  | .object ref =>
    match h.read ref with
    | .list items => items
    | .map _ => [.object ref]
  | .null => []
  | v => [v]

/-- Arguments are read off any value that a wire form decodes to. -/
lemma unpackArgs_eq (h : Heap) (w : Wire) :
    unpackArgs h w = (Wire.decode h w).map fun p => (argsOf p.2 p.1, p.2) := by
  unfold unpackArgs
  cases Wire.decode h w with
  | error e => rfl
  | ok p =>
    obtain ⟨v, h'⟩ := p
    cases v with
    | object r =>
      show (match h'.read r with
        | .list items => pure (items, h')
        | .map _ => pure ([Value.object r], h') : Except CodecError (List Value × Heap)) =
        .ok (argsOf h' (.object r), h')
      simp only [argsOf]
      cases h'.read r <;> rfl
    | _ => rfl

/-- So reading them fails exactly when decoding does, and for the same reason. -/
lemma unpackArgs_eq_error_iff {w : Wire} {e : CodecError} :
    unpackArgs h w = .error e ↔ Wire.decode h w = .error e := by
  rw [unpackArgs_eq]
  cases Wire.decode h w <;> simp [Except.map]

/-- Arguments without functions come back as a jointly isomorphic list. -/
lemma exists_unpackArgs_jointly (hxs : ∀ v ∈ xs, h.Holds v)
    (hsize : (h.objectsFromAny xs).encard < 2 ^ 32) (h₀ : Heap) :
    ∃ w ys h', packArgs h xs = .ok w ∧ unpackArgs h₀ w = .ok (ys, h') ∧
      JointlyIsomorphic h xs h' ys := by
  obtain ⟨w, v', h', hpack, hdecode, iso⟩ := Wire.decode_encode (Heap.functionFree_newList hxs)
    (Heap.encard_newList hxs hsize) h₀
  obtain ⟨rfl, hmembers, hj⟩ := JointlyVia.of_list (fun v hv => (hxs v hv).allocated) iso
  refine ⟨w, _, h', hpack, ?_, _, hj⟩
  rw [unpackArgs_eq, hdecode]
  simp only [Except.map, argsOf, hmembers]

/-- Argument lists of one wire form are jointly isomorphic. -/
lemma jointlyIsomorphic_of_packArgs_eq {h' : Heap} {ys : List Value} {w : Wire}
    (hxs : ∀ v ∈ xs, h.Holds v) (hsize : (h.objectsFromAny xs).encard < 2 ^ 32)
    (hys : ∀ v ∈ ys, h'.Holds v) (hsize' : (h'.objectsFromAny ys).encard < 2 ^ 32)
    (hw : packArgs h xs = .ok w) (hw' : packArgs h' ys = .ok w) : JointlyIsomorphic h xs h' ys :=
  .of_lists (fun v hv => (hxs v hv).allocated) (fun v hv => (hys v hv).allocated)
    (.of_encode_eq hw hw' (Heap.encard_newList hxs hsize) (Heap.encard_newList hys hsize'))

end

/-- Arguments from which no function is reachable, of fewer than `2 ^ 32` objects together, are
packed and come back, into whatever heap, as a list of the same length and of the same kinds of
values in the same order. The two lists are jointly isomorphic, so two places of one argument or of
two hold one object after it exactly when they did before; one argument comes back as one,
isomorphic to it, and no arguments as none. Whatever else has the same wire form is such a list
too. And whatever a wire form is, reading arguments from it fails exactly when decoding it does. -/
theorem packArgs_roundTrip :
    (∀ (h : Heap) (xs : List Value) (h₀ : Heap), (∀ v ∈ xs, h.Holds v) →
      (h.objectsFromAny xs).encard < 2 ^ 32 →
      ∃ w ys h', packArgs h xs = .ok w ∧ unpackArgs h₀ w = .ok (ys, h') ∧
        ys.length = xs.length ∧ ys.map h'.kind = xs.map h.kind ∧
        JointlyIsomorphic h xs h' ys ∧
        (∀ i j p q, h.Shared xs i p j q ↔ h'.Shared ys i p j q) ∧
        (xs = [] → ys = []) ∧ (xs = [.null] → ys = [.null]) ∧
        (∀ v, xs = [v] → ∃ v', ys = [v'] ∧ Isomorphic h v h' v') ∧
        ∀ (h₁ : Heap) (zs : List Value), (∀ v ∈ zs, h₁.Holds v) →
          (h₁.objectsFromAny zs).encard < 2 ^ 32 → packArgs h₁ zs = .ok w →
          zs.map h₁.kind = xs.map h.kind ∧ JointlyIsomorphic h xs h₁ zs) ∧
    ∀ (h : Heap) (w : Wire) (e : CodecError),
      unpackArgs h w = .error e ↔ Wire.decode h w = .error e := by
  refine ⟨?_, fun h w e => unpackArgs_eq_error_iff⟩
  intro h xs h₀ hxs hsize
  obtain ⟨w, ys, h', hpack, hunpack, hj⟩ := exists_unpackArgs_jointly hxs hsize h₀
  obtain ⟨f, hf⟩ := id hj
  refine ⟨w, ys, h', hpack, hunpack, ?_, hf.map_kind, hj, hj.shared_iff, ?_, ?_, ?_, ?_⟩
  · rw [hf.roots, List.length_map]
  · rintro rfl
    exact hf.roots
  · rintro rfl
    exact hf.roots
  · rintro v rfl
    exact ⟨_, hf.roots, f, hf.single (List.mem_singleton_self v)⟩
  · intro h₁ zs hzs hsize₁ hpack₁
    have hj₁ := jointlyIsomorphic_of_packArgs_eq hxs hsize hzs hsize₁ hpack hpack₁
    obtain ⟨g, hg⟩ := id hj₁
    exact ⟨hg.map_kind, hj₁⟩

section
variable {h : Heap} {xs : List Value} {slots : List Slot}

open ObjectTable in
/-- Arguments that refer to no objects are packed as one list. -/
lemma packArgs_plain (hplain : childrenOf 0 (places (.list xs)) = [])
    (hslots : ∀ t : ObjectTable, t.entry (h.newList xs).2 0 h.size = .ok (.list slots)) :
    packArgs h xs = .ok ⟨.ref 0, [.list slots]⟩ := by
  have hlt : h.size < (h.newList xs).2.size := by simp [Heap.newList, Heap.size, Heap.alloc]
  -- the list that holds them is the only object
  have htable : ofValue (h.newList xs).2 (.object h.size) = empty.visit ⟨h.size, none, none⟩ := by
    simp [ofValue, collect, hlt, Heap.read_newList_self, empty, hplain]
  simp only [packArgs, Wire.encode, Heap.newList_fst, htable]
  simp [visit, empty, hslots, slot]
  rfl

/-- They come out of it as they went in. -/
lemma unpackArgs_plain (hresolve : slots.mapM (Wire.resolve h.size 1) = .ok xs) :
    unpackArgs h ⟨.ref 0, [.list slots]⟩ = .ok (xs, (h.newList xs).2) := by
  have hdecode : Wire.decode h ⟨.ref 0, [.list slots]⟩ = .ok (h.newList xs) := by
    simp [Wire.decode, Wire.object, hresolve, Heap.newList, Heap.alloc]
    rfl
  rw [unpackArgs_eq, hdecode, Except.map, Heap.newList_fst]
  simp only [argsOf, Heap.read_newList_self]

variable (h) in
lemma packArgs_nil : packArgs h [] = .ok ⟨.ref 0, [.list []]⟩ :=
  packArgs_plain rfl fun t => by rw [ObjectTable.entry, Heap.read_newList_self]; rfl

variable (h) in
lemma packArgs_str (text : String) : packArgs h [.str text] = .ok ⟨.ref 0, [.list [.str text]]⟩ :=
  packArgs_plain rfl fun t => by rw [ObjectTable.entry, Heap.read_newList_self]; rfl

variable (h) in
lemma unpackArgs_str (text : String) :
    unpackArgs h ⟨.ref 0, [.list [.str text]]⟩ = .ok ([.str text], (h.newList [.str text]).2) :=
  unpackArgs_plain rfl

end

/-- The list of `Wire.sharedLoop` and the map in it, each of which reaches the other, and a null. -/
def loopArgs : List Value :=
  [.object 0, .object 1, .null]

lemma objectsFrom_sharedLoop_one : Wire.sharedLoop.objectsFrom (.object 1) ⊆ {0, 1} := by
  refine Heap.objectsFrom_subset (by simp) ?_
  rintro r (rfl | rfl) s hs
  · rw [Wire.children_sharedLoop.1] at hs
    exact .inr (by simpa using hs)
  · rw [Wire.children_sharedLoop.2] at hs
    exact .inl (by simpa using hs)

lemma objectsFrom_loopArgs : ∀ v ∈ loopArgs, Wire.sharedLoop.objectsFrom v ⊆ {0, 1} := by
  simp only [loopArgs, List.forall_mem_cons, List.not_mem_nil, false_imp_iff, implies_true,
    and_true]
  refine ⟨Wire.objectsFrom_sharedLoop, objectsFrom_sharedLoop_one, ?_⟩
  rw [Heap.objectsFrom_eq_empty (by simp)]
  exact Set.empty_subset _

lemma holds_loopArgs : ∀ v ∈ loopArgs, Wire.sharedLoop.Holds v := by
  intro v hv
  have hsub := objectsFrom_loopArgs v hv
  refine ⟨Heap.functionFree_iff.2 ⟨?_, ?_⟩, ?_⟩
  · revert v
    simp [loopArgs]
  · intro r hr w hw f heq
    subst heq
    rcases hsub hr with rfl | rfl
    · rw [Wire.children_sharedLoop.1] at hw
      simp at hw
    · rw [Wire.children_sharedLoop.2] at hw
      simp at hw
  · intro r hr
    rcases hsub hr with rfl | rfl
    · decide
    · decide

lemma encard_loopArgs : (Wire.sharedLoop.objectsFromAny loopArgs).encard < 2 ^ 32 := by
  have hsub : Wire.sharedLoop.objectsFromAny loopArgs ⊆ {0, 1} := by
    rintro r ⟨v, hv, hr⟩
    exact objectsFrom_loopArgs v hv hr
  refine (Set.encard_le_encard hsub).trans_lt ?_
  rw [Set.encard_pair (by decide)]
  norm_num

/-- The map that the first of these arguments holds twice is after the way the second one. -/
theorem packArgs_roundTrip_loopArgs :
    (∀ v ∈ loopArgs, Wire.sharedLoop.Holds v) ∧
      (Wire.sharedLoop.objectsFromAny loopArgs).encard < 2 ^ 32 ∧
      ∃ w ys h', packArgs Wire.sharedLoop loopArgs = .ok w ∧ unpackArgs .empty w = .ok (ys, h') ∧
        ys.length = 3 ∧ JointlyIsomorphic Wire.sharedLoop loopArgs h' ys ∧
        h'.Shared ys 0 [.index 1] 1 [] := by
  obtain ⟨w, ys, h', hpack, hunpack, hlength, -, hj, hshared, -⟩ :=
    packArgs_roundTrip.1 Wire.sharedLoop loopArgs .empty holds_loopArgs encard_loopArgs
  refine ⟨holds_loopArgs, encard_loopArgs, w, ys, h', hpack, hunpack, hlength, hj, ?_⟩
  exact (hshared 0 1 [.index 1] []).1 ⟨1, rfl, rfl⟩

end WorkerHost
