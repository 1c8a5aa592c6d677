import WorkerHost.Proofs.Wire.Preorder

/-!
# Paths of first discovery

`Discovery h seen stack out` is the recursive depth-first walk of `Preorder` once more, now with the
path by which each object is first reached. The encoder keeps no paths: it notes for every object
which one held it and where, and goes back from there.

* `Discovery.unique`, `Discovery.preorder`: there is one such walk, in depth-first order;
* `Discovery.follow?`: a path of first discovery leads from the root to its object;
* `ObjectTable.Grounded.path_eq`: going back gives the path of the noted holder and one step;
* `ObjectTable.discovery_ofValue`: and so the paths of first discovery.
-/

namespace WorkerHost

/-- An object and a path to it. -/
structure Sighting where
  ref : ℕ
  path : List Segment

namespace Heap

/-- The objects that an object holds, in the order of their places, with the paths through it. -/
def sightingsIn (h : Heap) (x : Sighting) : List Sighting :=
  (ObjectTable.places (h.read x.ref)).filterMap fun p => p.2.ref?.map fun r => ⟨r, x.path ++ [p.1]⟩

end Heap

/-- The object at the root of a graph. -/
def Value.sightings (v : Value) : List Sighting :=
  v.ref?.toList.map fun r => ⟨r, []⟩

/-- A depth-first walk over a stack goes from what was seen to what is in `out`. -/
inductive Discovery (h : Heap) : List Sighting → List Sighting → List Sighting → Prop
  /-- nothing is left to visit -/
  | done (seen : List Sighting) : Discovery h seen [] seen
  /-- an object that was seen, by whatever path, is passed over -/
  | again {seen rest out : List Sighting} {x : Sighting} (hx : x.ref ∈ seen.map (·.ref))
      (hrest : Discovery h seen rest out) : Discovery h seen (x :: rest) out
  /-- a new object comes before all that is first reached through it, and that before the rest -/
  | first {seen below rest out : List Sighting} {x : Sighting} (hx : x.ref ∉ seen.map (·.ref))
      (hbelow : Discovery h (seen ++ [x]) (h.sightingsIn x) below)
      (hrest : Discovery h below rest out) : Discovery h seen (x :: rest) out

namespace Heap
variable {h : Heap} {v w : Value}

lemma map_ref_sightingsIn (h : Heap) (x : Sighting) :
    (h.sightingsIn x).map (·.ref) = h.next x.ref := by
  rw [sightingsIn, next, ← ObjectTable.map_snd_places, List.filterMap_map, List.map_filterMap]
  simp [Function.comp_def, Option.map_map]

/-- What stands at a place of an object is one step away. -/
lemma step?_of_mem_places {r : ℕ} {p : Segment × Value}
    (hp : p ∈ ObjectTable.places (h.read r)) : h.step? (.object r) p.1 = some p.2 := by
  cases hread : h.read r with
  | list items =>
    rw [hread] at hp
    obtain ⟨i, hi, rfl⟩ := List.mem_mapIdx.1 hp
    simp [step?, index?, hread, hi]
  | map entries =>
    rw [hread] at hp
    obtain ⟨e, he, rfl⟩ := List.mem_map.1 hp
    simp only [step?, get?, hread]
    exact Dict.get?_eq_some_iff.2 he

end Heap

namespace Discovery
variable {h : Heap} {seen stack out : List Sighting}

/-- The walk over a stack is the walk over its upper part and then over the rest. -/
lemma of_append {upper lower : List Sighting} (hw : Discovery h seen (upper ++ lower) out) :
    ∃ mid, Discovery h seen upper mid ∧ Discovery h mid lower out := by
  induction upper generalizing seen with
  | nil => exact ⟨seen, .done seen, hw⟩
  | cons x upper ih =>
    cases hw with
    | again hx hrest =>
      obtain ⟨mid, hupper, hlower⟩ := ih hrest
      exact ⟨mid, .again hx hupper, hlower⟩
    | first hx hbelow hrest =>
      obtain ⟨mid, hupper, hlower⟩ := ih hrest
      exact ⟨mid, .first hx hbelow hupper, hlower⟩

/-- There is one walk only. -/
theorem unique {out' : List Sighting} (hw : Discovery h seen stack out)
    (hw' : Discovery h seen stack out') : out = out' := by
  induction hw generalizing out' with
  | done seen =>
    cases hw'
    rfl
  | again hx _ ih =>
    cases hw' with
    | again _ hrest => exact ih hrest
    | first hx' _ _ => exact absurd hx hx'
  | first hx _ _ ihbelow ihrest =>
    cases hw' with
    | again hx' _ => exact absurd hx' hx
    | first _ hbelow hrest =>
      cases ihbelow hbelow
      exact ihrest hrest

/-- Its objects are in depth-first order of first visit. -/
theorem preorder (hw : Discovery h seen stack out) :
    Preorder h.next (seen.map (·.ref)) (stack.map (·.ref)) (out.map (·.ref)) := by
  induction hw with
  | done seen => exact .done _
  | again hx _ ih => exact .again hx ih
  | first hx _ _ ihbelow ihrest =>
    rw [List.map_append, Heap.map_ref_sightingsIn] at ihbelow
    exact .first hx ihbelow ihrest

/-- Paths that lead to their objects are extended to paths that do. -/
theorem follow? {v : Value} (hw : Discovery h seen stack out)
    (hseen : ∀ x ∈ seen, h.follow? v x.path = some (.object x.ref))
    (hstack : ∀ x ∈ stack, h.follow? v x.path = some (.object x.ref)) :
    ∀ x ∈ out, h.follow? v x.path = some (.object x.ref) := by
  induction hw with
  | done seen => exact hseen
  | again _ _ ih => exact ih hseen fun x hx => hstack x (List.mem_cons_of_mem _ hx)
  | @first seen below rest out x _ _ _ ihbelow ihrest =>
    have hfollow := hstack x List.mem_cons_self
    refine ihrest (ihbelow ?_ ?_) fun y hy => hstack y (List.mem_cons_of_mem _ hy)
    · intro y hy
      rcases List.mem_append.1 hy with hy | hy
      · exact hseen y hy
      · rw [List.mem_singleton.1 hy]
        exact hfollow
    · intro y hy
      obtain ⟨p, hp, hmap⟩ := List.mem_filterMap.1 hy
      obtain ⟨r, hr, rfl⟩ := Option.map_eq_some_iff.1 hmap
      rw [Heap.follow?_concat hfollow, Heap.step?_of_mem_places hp, Value.ref?_eq_some_iff.1 hr]

end Discovery

namespace ObjectTable

/-! ## Going back -/

/-- Every object with a number has its origin noted, and its holder has a smaller number. -/
structure Grounded (t : ObjectTable) : Prop where
  size : t.origins.size = t.order.size
  parent_lt : ∀ (i : ℕ) (o : Origin), t.origins[i]? = some o → ∀ j, o.parent = some j → j < i

/-- The path to what came from an origin. -/
def pathFrom (t : ObjectTable) : Origin → List Segment
  | ⟨some i, some s⟩ => t.path i ++ [s]
  | _ => []

section
variable {t : ObjectTable} {p : Pending}

lemma grounded_empty : empty.Grounded :=
  ⟨rfl, fun _ _ ho => by simp [empty] at ho⟩

/-- Holders have smaller numbers, so going back ends after as many steps as the number says. -/
lemma Grounded.pathLoop_eq (ht : t.Grounded) (i : ℕ) :
    ∀ fuel, i < fuel → ∀ acc, pathLoop t fuel i acc = t.path i ++ acc := by
  induction i using Nat.strong_induction_on with
  | _ i ih =>
    intro fuel hfuel acc
    obtain ⟨fuel, rfl⟩ := Nat.exists_eq_add_of_lt hfuel
    unfold path
    simp only [pathLoop]
    split
    · next j s ho =>
      have hlt : j < i := ht.parent_lt i _ ho j rfl
      rw [ih j hlt _ (by omega), ih j hlt _ hlt, List.append_assoc]
      rfl
    · rfl

/-- The path to an object is the path to its holder and one step. -/
lemma Grounded.path_eq (ht : t.Grounded) {i : ℕ} {o : Origin} (ho : t.origins[i]? = some o) :
    t.path i = t.pathFrom o := by
  unfold path
  simp only [pathLoop, ho]
  split
  · next j s heq =>
    cases heq
    exact ht.pathLoop_eq j i (ht.parent_lt i _ ho j rfl) [s]
  · next hne =>
    obtain ⟨parent, segment⟩ := o
    cases parent with
    | none => rfl
    | some j =>
      cases segment with
      | none => rfl
      | some s => exact absurd rfl (hne j s)

/-- The holder of what waits on the stack has its number. -/
def Pending.Grounded (t : ObjectTable) (p : Pending) : Prop :=
  ∀ j, p.parent = some j → j < t.order.size

lemma Pending.Grounded.visit {q : Pending} (hq : q.Grounded t) : q.Grounded (t.visit p) := by
  intro j hj
  have hsize : (t.visit p).order.size = t.order.size + 1 := by simp [ObjectTable.visit]
  rw [hsize]
  exact (hq j hj).trans (Nat.lt_succ_self _)

lemma Grounded.visit (ht : t.Grounded) (hp : p.Grounded t) : (t.visit p).Grounded := by
  refine ⟨by simp [ObjectTable.visit, ht.size], fun i o ho j hj => ?_⟩
  simp only [ObjectTable.visit, Array.getElem?_push] at ho
  split at ho
  · next heq =>
    cases ho
    rw [heq, ht.size]
    exact hp j hj
  · exact ht.parent_lt i o ho j hj

/-- A visit leaves the paths to objects with a number as they are. -/
lemma Grounded.path_visit (ht : t.Grounded) (hp : p.Grounded t) (i : ℕ) :
    i < t.order.size → (t.visit p).path i = t.path i := by
  induction i using Nat.strong_induction_on with
  | _ i ih =>
    intro hi
    have hlt : i < t.origins.size := ht.size ▸ hi
    have ho : t.origins[i]? = some t.origins[i] := Array.getElem?_eq_getElem hlt
    have ho' : (t.visit p).origins[i]? = some t.origins[i] := by
      rw [ObjectTable.visit, Array.getElem?_push_lt hlt]
    rw [(ht.visit hp).path_eq ho', ht.path_eq ho]
    unfold pathFrom
    split
    · next j s heq =>
      have hj : j < i := ht.parent_lt i _ ho j (by rw [heq])
      rw [ih j hj (hj.trans hi)]
    · rfl

/-- The object that waits on the stack, with the path through its holder. -/
def sighting (t : ObjectTable) (p : Pending) : Sighting :=
  ⟨p.ref, t.pathFrom ⟨p.parent, p.segment⟩⟩

lemma Grounded.sighting_visit (ht : t.Grounded) (hp : p.Grounded t) {q : Pending}
    (hq : q.Grounded t) : (t.visit p).sighting q = t.sighting q := by
  unfold sighting pathFrom
  split
  · next j s heq =>
    have hj : j < t.order.size := hq j (congrArg Origin.parent heq)
    rw [ht.path_visit hp j hj]
  · rfl

/-- The objects with a number, in the order of their numbers and with their paths. -/
def sightings (t : ObjectTable) : List Sighting :=
  t.order.toList.mapIdx fun i r => ⟨r, t.path i⟩

lemma sightings_eq_map (t : ObjectTable) :
    t.sightings = t.order.toList.zipIdx.map fun p => ⟨p.1, t.path p.2⟩ :=
  List.mapIdx_eq_zipIdx_map

lemma map_ref_sightings (t : ObjectTable) : t.sightings.map (·.ref) = t.order.toList := by
  apply List.ext_getElem?
  intro i
  simp [sightings, Option.map_map, Function.comp_def]

/-- The next object has the path that it waited with. -/
lemma Grounded.path_size_visit (ht : t.Grounded) (hp : p.Grounded t) :
    (t.visit p).path t.order.size = (t.sighting p).path := by
  have ho : (t.visit p).origins[t.order.size]? = some ⟨p.parent, p.segment⟩ := by
    rw [ObjectTable.visit, ← ht.size, Array.getElem?_push_size]
  rw [(ht.visit hp).path_eq ho]
  exact congrArg Sighting.path (ht.sighting_visit hp hp)

lemma Grounded.sightings_visit (ht : t.Grounded) (hp : p.Grounded t) :
    (t.visit p).sightings = t.sightings ++ [t.sighting p] := by
  have horder : (t.visit p).order.toList = t.order.toList ++ [p.ref] := by
    simp [ObjectTable.visit]
  rw [sightings, horder, List.mapIdx_concat, Array.length_toList, ht.path_size_visit hp]
  refine congrArg (· ++ [_]) (List.mapIdx_eq_mapIdx_iff.2 fun i hi => ?_)
  rw [ht.path_visit hp i (by simpa using hi)]

/-! ## The walk -/

/-- What goes on the stack for a new object are the objects it holds, with the paths through it. -/
lemma map_sighting_childrenOf {i : ℕ} (ps : List (Segment × Value)) :
    (childrenOf i ps).map t.sighting =
      ps.filterMap fun p => p.2.ref?.map fun r => ⟨r, t.path i ++ [p.1]⟩ := by
  fun_induction childrenOf i ps with
  | case1 => rfl
  | case2 s r rest ih => simp [Value.ref?, sighting, pathFrom, ih]
  | case3 p rest hp ih =>
    have hnone : p.2.ref? = none := by
      rw [Option.eq_none_iff_forall_ne_some]
      intro r hr
      exact hp p.1 r (by rw [← Value.ref?_eq_some_iff.1 hr])
    simp [hnone, ih]

lemma parent_of_mem_childrenOf {i : ℕ} {ps : List (Segment × Value)} {q : Pending}
    (hq : q ∈ childrenOf i ps) : q.parent = some i := by
  fun_induction childrenOf i ps with
  | case1 => cases hq
  | case2 s r rest ih =>
    rcases List.mem_cons.1 hq with rfl | hq
    · rfl
    · exact ih hq
  | case3 p rest hp ih => exact ih hq

lemma Coherent.not_mem_of_not_contains (ht : t.Coherent) {r : ℕ}
    (hnum : ¬ t.ids.contains r = true) : r ∉ t.order.toList :=
  fun hmem => hnum (ht.contains_iff.2 (Array.mem_toList_iff.1 hmem))

/-- What goes on the stack for a new object has a holder with a number. -/
lemma grounded_of_mem_childrenOf {ps : List (Segment × Value)} {q : Pending}
    (hq : q ∈ childrenOf t.order.size ps) : q.Grounded (t.visit p) := by
  intro j hj
  rw [parent_of_mem_childrenOf hq] at hj
  cases hj
  simp [ObjectTable.visit]

/-- A visit is the first discovery of the object on top: below it come the objects it holds. -/
lemma Grounded.discovery_visit {h : Heap} (ht : t.Grounded) {stack : List Pending}
    (hp : p.Grounded t) (hstack : ∀ q ∈ stack, q.Grounded t) (hnew : p.ref ∉ t.order.toList)
    {out : List Sighting} (hw : Discovery h (t.visit p).sightings
      ((childrenOf t.order.size (places (h.read p.ref)) ++ stack).map (t.visit p).sighting) out) :
    Discovery h t.sightings ((p :: stack).map t.sighting) out := by
  have hbelow : (childrenOf t.order.size (places (h.read p.ref))).map (t.visit p).sighting =
      h.sightingsIn (t.sighting p) := by
    rw [map_sighting_childrenOf, ht.path_size_visit hp]
    rfl
  have hrest : stack.map (t.visit p).sighting = stack.map t.sighting :=
    List.map_congr_left fun q hq => ht.sighting_visit hp (hstack q hq)
  rw [List.map_append, hbelow, hrest, ht.sightings_visit hp] at hw
  obtain ⟨below, hdown, hright⟩ := hw.of_append
  refine .first ?_ hdown hright
  rw [map_ref_sightings]
  exact hnew

/-- The walk with a stack discovers objects as the recursive walk does. -/
lemma discovery_collect (h : Heap) (ht : t.Coherent) (hg : t.Grounded) (stack : List Pending)
    (hstack : ∀ p ∈ stack, p.Grounded t) :
    Discovery h t.sightings (stack.map t.sighting) (collect h t stack).sightings := by
  induction t, stack using collect.induct h with
  | case1 t =>
    rw [collect]
    exact .done _
  | case2 t p stack hnum ih =>
    rw [collect_cons, if_pos hnum]
    refine .again ?_ (ih ht hg fun q hq => hstack q (List.mem_cons_of_mem _ hq))
    rw [map_ref_sightings]
    exact Array.mem_toList_iff.2 (ht.contains_iff.1 hnum)
  | case3 t p stack hnum hlt ih =>
    obtain ⟨hp, hrest⟩ := List.forall_mem_cons.1 hstack
    rw [collect_cons, if_neg hnum]
    refine hg.discovery_visit hp hrest (ht.not_mem_of_not_contains hnum)
      (ih (ht.visit hnum) (hg.visit hp) fun q hq => ?_)
    rcases List.mem_append.1 hq with hq | hq
    · exact grounded_of_mem_childrenOf hq
    · exact (hrest q hq).visit
  | case4 t p stack hnum hlt ih =>
    obtain ⟨hp, hrest⟩ := List.forall_mem_cons.1 hstack
    have hnone : childrenOf t.order.size (places (h.read p.ref)) = [] := by
      rw [Heap.read_of_size_le hlt]
      rfl
    have hvisit := ih (ht.visit hnum) (hg.visit hp) fun q hq => (hrest q hq).visit
    rw [collect_cons, if_neg hnum, hnone]
    refine hg.discovery_visit hp hrest (ht.not_mem_of_not_contains hnum) ?_
    rw [hnone]
    exact hvisit

end

/-- Objects are numbered as they are discovered, and the path that going back gives is the one of
first discovery. -/
theorem discovery_ofValue (h : Heap) (v : Value) :
    Discovery h [] v.sightings (ofValue h v).sightings := by
  cases v with
  | object r =>
    refine discovery_collect h coherent_empty grounded_empty [⟨r, none, none⟩] fun p hp j hj => ?_
    rw [List.mem_singleton.1 hp] at hj
    cases hj
  | _ => exact .done []

/-- The path to an object with a number leads to it. -/
lemma follow?_of_mem_sightings {h : Heap} {v : Value} :
    ∀ x ∈ (ofValue h v).sightings, h.follow? v x.path = some (.object x.ref) := by
  refine (discovery_ofValue h v).follow? (fun y hy => by cases hy) fun y hy => ?_
  obtain ⟨r, hr, rfl⟩ := List.mem_map.1 hy
  rw [Value.ref?_eq_some_iff.1 (Option.mem_toList.1 hr)]
  rfl

end ObjectTable
end WorkerHost
