import Mathlib.Data.Finset.Range
import WorkerHost.Proofs.Wire.Discovery

/-!
# The walk with a stack is the recursive walk

The encoder goes through a graph with a stack of its own. An object can wait there several times,
once for each reference found to it, and only when its turn comes is it seen whether it has been
visited. `Heap.discover` is the same walk as a recursion, which visits an object and then what it
holds, and passes over what was seen.

* `turns_collect`: the loop ends, and takes as many turns as things have been put on the stack;
* `Heap.discovery_discover`: the recursion is never deeper than there are objects to see;
* `Traced.collect`: what is noted of the origin of an object is true, whatever else waited for it;
* `Traced.goesBack`: going back from an object ends at the root;
* `worklist_eq_recursion`: the numbers, origins and paths of the walk are those of the recursion.
-/

namespace WorkerHost

/-! ## The recursive walk -/

namespace Heap

/-- The recursive depth-first walk, down to some depth: an object that was seen is passed over, and
a new one is written down before all that is first reached through it. -/
def discover (h : Heap) : ℕ → List Sighting → Sighting → List Sighting
  | 0, seen, _ => seen
  | depth + 1, seen, x =>
    if x.ref ∈ seen.map (·.ref) then seen
    else (h.sightingsIn x).foldl (h.discover depth) (seen ++ [x])

/-- How many objects of a heap have not been seen. -/
def unseen (h : Heap) (seen : List Sighting) : ℕ :=
  ((Finset.range h.size).filter fun r => r ∉ seen.map (·.ref)).card

section
variable {h : Heap} {seen out : List Sighting} {x : Sighting}

lemma unseen_le_size (h : Heap) (seen : List Sighting) : h.unseen seen ≤ h.size :=
  (Finset.card_filter_le _ _).trans_eq (Finset.card_range _)

lemma unseen_anti (hsub : seen.map (·.ref) ⊆ out.map (·.ref)) : h.unseen out ≤ h.unseen seen :=
  Finset.card_le_card (Finset.monotone_filter_right _ fun _ _ hr hmem => hr (hsub hmem))

lemma unseen_concat_lt (hlt : x.ref < h.size) (hnew : x.ref ∉ seen.map (·.ref)) :
    h.unseen (seen ++ [x]) < h.unseen seen := by
  apply Finset.card_lt_card
  refine (Finset.ssubset_iff_of_subset (Finset.monotone_filter_right _ ?_)).2 ⟨x.ref, ?_, ?_⟩
  · intro r _ hr hmem
    exact hr (by simp [List.map_append, hmem])
  · exact Finset.mem_filter.2 ⟨Finset.mem_range.2 hlt, hnew⟩
  · intro hmem
    exact (Finset.mem_filter.1 hmem).2 (by simp)

lemma sightingsIn_of_size_le (hlt : ¬ x.ref < h.size) : h.sightingsIn x = [] := by
  rw [sightingsIn, read_of_size_le hlt]
  rfl

/-- As deep as there are objects to see, the recursion is the depth-first walk. -/
lemma discovery_discover (depth : ℕ) (stack : List Sighting) (hdepth : h.unseen seen < depth) :
    Discovery h seen stack (stack.foldl (h.discover depth) seen) := by
  -- below a new object there is one object less to see, and to its right there are no more
  induction depth generalizing seen stack with
  | zero => exact absurd hdepth (Nat.not_lt_zero _)
  | succ depth ih =>
    induction stack generalizing seen with
    | nil => exact .done seen
    | cons x rest ihrest =>
      rw [List.foldl_cons]
      by_cases hx : x.ref ∈ seen.map (·.ref)
      · rw [discover, if_pos hx]
        exact .again hx (ihrest hdepth)
      · rw [discover, if_neg hx]
        have hbelow : Discovery h (seen ++ [x]) (h.sightingsIn x)
            ((h.sightingsIn x).foldl (h.discover depth) (seen ++ [x])) := by
          by_cases hlt : x.ref < h.size
          · have hless := unseen_concat_lt hlt hx
            exact ih _ (by omega)
          · rw [sightingsIn_of_size_le hlt]
            exact .done _
        have hseen : seen.map (·.ref) ⊆
            ((h.sightingsIn x).foldl (h.discover depth) (seen ++ [x])).map (·.ref) := by
          refine List.Subset.trans ?_ hbelow.preorder.prefix_of_seen.subset
          simp
        exact .first hx hbelow (ihrest ((unseen_anti hseen).trans_lt hdepth))

end

/-- How many references the objects of a list hold. -/
def referencesIn (h : Heap) (rs : List ℕ) : ℕ :=
  (rs.map fun r => (h.next r).length).sum

lemma referencesIn_cons (h : Heap) (r : ℕ) (rs : List ℕ) :
    h.referencesIn (r :: rs) = (h.next r).length + h.referencesIn rs :=
  List.sum_cons

end Heap

namespace ObjectTable

/-! ## The loop -/

/-- The loop, turn by turn: from a table and a stack it ends after so many turns in a table. -/
inductive Turns (h : Heap) : ObjectTable → List Pending → ℕ → ObjectTable → Prop
  /-- the stack is empty -/
  | done (t : ObjectTable) : Turns h t [] 0 t
  /-- the object on top has been visited since it was put there -/
  | pass {t out : ObjectTable} {p : Pending} {stack : List Pending} {n : ℕ}
      (hold : t.ids.contains p.ref = true) (hrest : Turns h t stack n out) :
      Turns h t (p :: stack) (n + 1) out
  /-- the object on top is visited, and what it holds goes on the stack -/
  | visit {t out : ObjectTable} {p : Pending} {stack : List Pending} {n : ℕ}
      (hnew : ¬ t.ids.contains p.ref = true)
      (hrest : Turns h (t.visit p)
        (childrenOf t.order.size (places (h.read p.ref)) ++ stack) n out) :
      Turns h t (p :: stack) (n + 1) out

/-- What the loop begins with. -/
def start (v : Value) : List Pending :=
  v.ref?.toList.map fun r => ⟨r, none, none⟩

section
variable {h : Heap} {v : Value} {t out : ObjectTable} {p : Pending} {stack : List Pending}

/-- The loop can end in one way only. -/
lemma Turns.unique {out' : ObjectTable} {n n' : ℕ} (ht : Turns h t stack n out)
    (ht' : Turns h t stack n' out') : n = n' ∧ out = out' := by
  induction ht generalizing n' with
  | done t =>
    cases ht'
    exact ⟨rfl, rfl⟩
  | pass hold _ ih =>
    cases ht' with
    | pass _ hrest =>
      obtain ⟨rfl, rfl⟩ := ih hrest
      exact ⟨rfl, rfl⟩
    | visit hnew _ => exact absurd hold hnew
  | visit hnew _ ih =>
    cases ht' with
    | pass hold _ => exact absurd hold hnew
    | visit _ hrest =>
      obtain ⟨rfl, rfl⟩ := ih hrest
      exact ⟨rfl, rfl⟩

lemma length_childrenOf (h : Heap) (parent r : ℕ) :
    (childrenOf parent (places (h.read r))).length = (h.next r).length := by
  rw [← List.length_map (·.ref), map_ref_childrenOf, map_snd_places]
  rfl

/-- The loop ends, after a turn for everything on the stack and for every reference that a newly
visited object holds. -/
lemma turns_collect (h : Heap) (t : ObjectTable) (stack : List Pending) :
    ∃ visited, (collect h t stack).order.toList = t.order.toList ++ visited ∧
      Turns h t stack (stack.length + h.referencesIn visited) (collect h t stack) := by
  -- a visit adds its own turn, and one for each reference that it puts on the stack
  have hvisit {t : ObjectTable} {p : Pending} {stack : List Pending} {out : ObjectTable}
      (hnew : ¬ t.ids.contains p.ref = true)
      (ih : ∃ visited, out.order.toList = (t.visit p).order.toList ++ visited ∧
        Turns h (t.visit p) (childrenOf t.order.size (places (h.read p.ref)) ++ stack)
          ((childrenOf t.order.size (places (h.read p.ref)) ++ stack).length +
            h.referencesIn visited) out) :
      ∃ visited, out.order.toList = t.order.toList ++ visited ∧
        Turns h t (p :: stack) ((p :: stack).length + h.referencesIn visited) out := by
    obtain ⟨visited, horder, hturns⟩ := ih
    have hcount : (p :: stack).length + h.referencesIn (p.ref :: visited) =
        (childrenOf t.order.size (places (h.read p.ref)) ++ stack).length +
          h.referencesIn visited + 1 := by
      rw [Heap.referencesIn_cons, List.length_append, length_childrenOf, List.length_cons]
      omega
    refine ⟨p.ref :: visited, ?_, ?_⟩
    · rw [horder]
      simp [ObjectTable.visit]
    · rw [hcount]
      exact .visit hnew hturns
  induction t, stack using collect.induct h with
  | case1 t =>
    rw [collect]
    exact ⟨[], (List.append_nil _).symm, .done t⟩
  | case2 t p stack hold ih =>
    obtain ⟨visited, horder, hturns⟩ := ih
    rw [collect_cons, if_pos hold]
    refine ⟨visited, horder, ?_⟩
    rw [List.length_cons, Nat.add_right_comm]
    exact .pass hold hturns
  | case3 t p stack hnew _ ih =>
    rw [collect_cons, if_neg hnew]
    exact hvisit hnew ih
  | case4 t p stack hnew hlt ih =>
    have hnone : childrenOf t.order.size (places (h.read p.ref)) = [] := by
      rw [Heap.read_of_size_le hlt]
      rfl
    rw [collect_cons, if_neg hnew]
    refine hvisit hnew ?_
    rw [hnone]
    exact ih

lemma ofValue_eq_collect (h : Heap) (v : Value) : ofValue h v = collect h empty (start v) := by
  cases v with
  | object r => rfl
  -- where there is no object the loop begins with nothing
  | _ => simp [ofValue, start, Value.ref?, collect]

/-- The loop ends with the table of a value, whose objects give the number of its turns. -/
lemma turns_ofValue_iff {n : ℕ} : Turns h empty (start v) n out ↔
    n = (start v).length + h.referencesIn (ofValue h v).order.toList ∧ out = ofValue h v := by
  obtain ⟨visited, horder, hturns⟩ := turns_collect h empty (start v)
  have hvisited : visited = (ofValue h v).order.toList := by
    rw [ofValue_eq_collect, horder]
    rfl
  rw [← ofValue_eq_collect, hvisited] at hturns
  constructor
  · intro hout
    exact hout.unique hturns
  · rintro ⟨rfl, rfl⟩
    exact hturns

/-! ## Origins -/

/-- The object is the root and has no origin, or it stands where its origin says. -/
inductive ComesFrom (h : Heap) (v : Value) (t : ObjectTable) : Origin → ℕ → Prop
  | root {r : ℕ} (hr : v = .object r) : ComesFrom h v t ⟨none, none⟩ r
  | held {i q r : ℕ} {s : Segment} (hq : t.order[i]? = some q)
      (hs : (s, .object r) ∈ places (h.read q)) : ComesFrom h v t ⟨some i, some s⟩ r

/-- What is known at every turn of where objects come from, those with a number and those that
wait. -/
structure Traced (h : Heap) (v : Value) (t : ObjectTable) (stack : List Pending) : Prop where
  grounded : t.Grounded
  numbered : ∀ i r : ℕ, t.order[i]? = some r → ∃ o, t.origins[i]? = some o ∧ ComesFrom h v t o r
  waiting : ∀ p ∈ stack, ComesFrom h v t ⟨p.parent, p.segment⟩ p.ref

lemma getElem?_order_visit (t : ObjectTable) (p : Pending) (i : ℕ) :
    (t.visit p).order[i]? = if i = t.order.size then some p.ref else t.order[i]? :=
  Array.getElem?_push

lemma getElem?_origins_visit (t : ObjectTable) (p : Pending) (i : ℕ) :
    (t.visit p).origins[i]? =
      if i = t.origins.size then some ⟨p.parent, p.segment⟩ else t.origins[i]? :=
  Array.getElem?_push

lemma ComesFrom.visit {o : Origin} {r : ℕ} (hc : ComesFrom h v t o r) :
    ComesFrom h v (t.visit p) o r := by
  cases hc with
  | root hr => exact .root hr
  | held hq hs =>
    have hlt := (Array.getElem?_eq_some_iff.1 hq).1
    refine .held ?_ hs
    rw [getElem?_order_visit, if_neg hlt.ne, hq]

/-- What waits comes from an object with a number. -/
lemma ComesFrom.pending_grounded (hc : ComesFrom h v t ⟨p.parent, p.segment⟩ p.ref) :
    p.Grounded t := by
  obtain ⟨r, parent, segment⟩ := p
  intro i hi
  cases hc with
  | root _ => cases hi
  | held hq _ =>
    cases hi
    exact (Array.getElem?_eq_some_iff.1 hq).1

/-- What goes on the stack for an object stands in it at the noted place. -/
lemma comesFrom_of_mem_childrenOf {i q : ℕ} {ps : List (Segment × Value)} {p : Pending}
    (hq : t.order[i]? = some q) (hps : ∀ x ∈ ps, x ∈ places (h.read q))
    (hp : p ∈ childrenOf i ps) : ComesFrom h v t ⟨p.parent, p.segment⟩ p.ref := by
  fun_induction childrenOf i ps with
  | case1 => cases hp
  | case2 s r rest ih =>
    obtain ⟨hfirst, hrest⟩ := List.forall_mem_cons.1 hps
    rcases List.mem_cons.1 hp with rfl | hp
    · exact .held hq hfirst
    · exact ih hrest hp
  | case3 x rest hx ih => exact ih (List.forall_mem_cons.1 hps).2 hp

/-- A visit notes where the object on top comes from, and what it holds comes from it. Whatever
else waits for the same object keeps its own origin. -/
lemma Traced.visit (ht : Traced h v t (p :: stack)) :
    Traced h v (t.visit p) (childrenOf t.order.size (places (h.read p.ref)) ++ stack) := by
  obtain ⟨hp, hstack⟩ := List.forall_mem_cons.1 ht.waiting
  refine ⟨ht.grounded.visit hp.pending_grounded, fun i r hi => ?_, fun q hq => ?_⟩
  -- the visited object gets the origin it waited with, the others keep theirs
  · rw [getElem?_order_visit, ← ht.grounded.size] at hi
    rw [getElem?_origins_visit]
    by_cases hsize : i = t.origins.size
    · rw [if_pos hsize] at hi ⊢
      cases hi
      exact ⟨_, rfl, hp.visit⟩
    · rw [if_neg hsize] at hi ⊢
      obtain ⟨o, ho, hc⟩ := ht.numbered i r hi
      exact ⟨o, ho, hc.visit⟩
  · have hnew : (t.visit p).order[t.order.size]? = some p.ref := by
      rw [getElem?_order_visit, if_pos rfl]
    rcases List.mem_append.1 hq with hq | hq
    · exact comesFrom_of_mem_childrenOf hnew (fun _ hx => hx) hq
    · exact (hstack q hq).visit

lemma Traced.collect (ht : Traced h v t stack) : Traced h v (collect h t stack) [] := by
  induction t, stack using collect.induct h with
  | case1 t =>
    rw [ObjectTable.collect]
    exact ht
  | case2 t p stack hold ih =>
    rw [collect_cons, if_pos hold]
    exact ih ⟨ht.grounded, ht.numbered, (List.forall_mem_cons.1 ht.waiting).2⟩
  | case3 t p stack hnew _ ih =>
    rw [collect_cons, if_neg hnew]
    exact ih ht.visit
  | case4 t p stack hnew hlt ih =>
    have hvisit := ht.visit
    rw [Heap.read_of_size_le hlt] at hvisit
    rw [collect_cons, if_neg hnew, Heap.read_of_size_le hlt]
    exact ih hvisit

lemma traced_ofValue (h : Heap) (v : Value) : Traced h v (ofValue h v) [] := by
  rw [ofValue_eq_collect]
  refine Traced.collect ⟨grounded_empty, fun i r hi => ?_, fun p hp => ?_⟩
  · simp [empty] at hi
  · obtain ⟨r, hr, rfl⟩ := List.mem_map.1 hp
    exact .root (Value.ref?_eq_some_iff.1 (Option.mem_toList.1 hr))

lemma order_zero_ofValue {r : ℕ} (hr : v = .object r) : (ofValue h v).order[0]? = some r := by
  have hwalk := preorder_ofValue h v
  rw [hr] at hwalk ⊢
  cases hwalk with
  | again hseen _ => exact absurd hseen List.not_mem_nil
  | first _ hbelow hrest =>
    obtain ⟨later, hlater⟩ := hbelow.prefix_of_seen.trans hrest.prefix_of_seen
    rw [← Array.getElem?_toList, ← hlater]
    rfl

/-- The first object has no origin, as no object has a smaller number. -/
lemma root_of_order_zero {r : ℕ} (hr : (ofValue h v).order[0]? = some r) :
    v = .object r ∧ (ofValue h v).origins[0]? = some ⟨none, none⟩ := by
  have ht := traced_ofValue h v
  obtain ⟨o, ho, hc⟩ := ht.numbered 0 r hr
  cases hc with
  | root hroot => exact ⟨hroot, ho⟩
  | held hq _ => exact absurd (ht.grounded.parent_lt 0 _ ho _ rfl) (Nat.not_lt_zero _)

/-- Any other object has the origin that is noted, in an object before it. -/
lemma exists_holder {i r : ℕ} (hr : (ofValue h v).order[i]? = some r) (hpos : 0 < i) :
    ∃ j q s, j < i ∧ (ofValue h v).origins[i]? = some ⟨some j, some s⟩ ∧
      (ofValue h v).order[j]? = some q ∧ h.step? (.object q) s = some (.object r) := by
  have ht := traced_ofValue h v
  obtain ⟨o, ho, hc⟩ := ht.numbered i r hr
  cases hc with
  | root hroot =>
    -- the root has its number already
    have hzero := ((ofValue_coherent h v).ids_iff r 0).2 (order_zero_ofValue hroot)
    rw [((ofValue_coherent h v).ids_iff r i).2 hr] at hzero
    exact absurd (Option.some.inj hzero) hpos.ne'
  | held hq hs =>
    exact ⟨_, _, _, ht.grounded.parent_lt i _ ho _ rfl, ho, hq, Heap.step?_of_mem_places hs⟩

/-- The path of an object is that by which it has been found. -/
lemma follow?_path_ofValue {i r : ℕ} (hr : (ofValue h v).order[i]? = some r) :
    h.follow? v ((ofValue h v).path i) = some (.object r) := by
  have hmem : (⟨r, (ofValue h v).path i⟩ : Sighting) ∈ (ofValue h v).sightings := by
    rw [List.mem_iff_getElem?]
    exact ⟨i, by simp [sightings, hr]⟩
  exact follow?_of_mem_sightings _ hmem

/-- Going back from an object, from each one to the one that held it, ends at the root with these
steps. -/
inductive GoesBack (t : ObjectTable) : ℕ → List Segment → Prop
  | root {i : ℕ} (ho : t.origins[i]? = some ⟨none, none⟩) : GoesBack t i []
  | held {i j : ℕ} {s : Segment} {path : List Segment}
      (ho : t.origins[i]? = some ⟨some j, some s⟩) (hback : GoesBack t j path) :
      GoesBack t i (path ++ [s])

/-- Going back from any object ends, as holders have smaller numbers. -/
lemma Traced.goesBack (ht : Traced h v t stack) (i : ℕ) :
    ∀ r : ℕ, t.order[i]? = some r → t.GoesBack i (t.path i) := by
  induction i using Nat.strong_induction_on with
  | _ i ih =>
    intro r hi
    obtain ⟨o, ho, hc⟩ := ht.numbered i r hi
    -- the path is that of the holder, whose number is smaller, and one step
    rw [ht.grounded.path_eq ho]
    cases hc with
    | root _ => exact .root ho
    | held hq _ => exact .held ho (ih _ (ht.grounded.parent_lt i _ ho _ rfl) _ hq)

/-! ## Tables -/

/-- What the table for the graph of a value is. -/
structure Walked (h : Heap) (v : Value) (t : ObjectTable) : Prop where
  /-- the loop ends with it, after a turn for the root and one for every reference that a visited
  object holds -/
  turns : ∀ n out, Turns h empty (start v) n out ↔
    n = (start v).length + h.referencesIn t.order.toList ∧ out = t
  /-- the visited objects are the reachable ones -/
  reachable : ∀ r, r ∈ t.order ↔ r ∈ h.objectsFrom v
  /-- each of them is visited once -/
  once : t.order.toList.Nodup
  /-- the recursive walk visits the same objects in the same order and by the same paths, whatever
  the depth down to which it may go -/
  recursive : ∀ depth, h.size < depth → v.sightings.foldl (h.discover depth) [] =
    t.order.toList.mapIdx fun i r => ⟨r, t.path i⟩
  /-- numbers count the objects in that order -/
  number : ∀ r i : ℕ, t.ids[r]? = some i ↔ t.order[i]? = some r
  /-- the number of an object is what is written for it -/
  slot : ∀ r i : ℕ, t.order[i]? = some r →
    ∃ id : UInt32, id.toNat = i ∧ ∀ place, t.slot (.object r) place = .ok (.ref id)
  /-- the first object is the root -/
  root : ∀ r : ℕ, t.order[0]? = some r → v = .object r ∧ t.origins[0]? = some ⟨none, none⟩
  /-- any other has been found in an object with a smaller number, which holds it at the noted
  place -/
  held : ∀ i r : ℕ, t.order[i]? = some r → 0 < i → ∃ j q s, j < i ∧
    t.origins[i]? = some ⟨some j, some s⟩ ∧ t.order[j]? = some q ∧
      h.step? (.object q) s = some (.object r)
  /-- going back from an object ends at the root, and the steps lead from there to it -/
  path : ∀ i r : ℕ, t.order[i]? = some r →
    t.GoesBack i (t.path i) ∧ h.follow? v (t.path i) = some (.object r)

/-- An object with a number has it as its reference, if the numbers fit 32 bits. -/
lemma Coherent.exists_slot (ht : t.Coherent) (hsize : t.order.size ≤ 2 ^ 32) {i r : ℕ}
    (hi : t.order[i]? = some r) :
    ∃ id : UInt32, id.toNat = i ∧ ∀ place, t.slot (.object r) place = .ok (.ref id) := by
  have hlt : i < 2 ^ 32 := (Array.getElem?_eq_some_iff.1 hi).1.trans_le hsize
  refine ⟨UInt32.ofNat i, UInt32.toNat_ofNat_of_lt' hlt, fun place => ?_⟩
  simp only [slot, (ht.ids_iff r i).2 hi]

/-- Visiting what waits on a stack numbers exactly the reachable objects, once each, in the order
and with the paths of the recursive walk; every origin that is noted is true, and from every object
it is possible to go back to the root. -/
theorem worklist_eq_recursion (h : Heap) (v : Value) (hsize : (h.objectsFrom v).encard ≤ 2 ^ 32) :
    Walked h v (ofValue h v) := by
  have ht := ofValue_coherent h v
  have hfits : (ofValue h v).order.size ≤ 2 ^ 32 := by
    rw [← size_order_ofValue] at hsize
    exact_mod_cast hsize
  refine
    { turns := fun _ _ => turns_ofValue_iff
      reachable := fun _ => mem_order_ofValue
      once := ht.nodup_order
      recursive := fun depth hdepth => ?_
      number := ht.ids_iff
      slot := fun _ _ hr => ht.exists_slot hfits hr
      root := fun _ hr => root_of_order_zero hr
      held := fun _ _ hr hpos => exists_holder hr hpos
      path := fun i r hr => ⟨(traced_ofValue h v).goesBack i r hr, follow?_path_ofValue hr⟩ }
  have hwalk : Discovery h [] v.sightings (v.sightings.foldl (h.discover depth) []) :=
    Heap.discovery_discover depth _ ((h.unseen_le_size []).trans_lt hdepth)
  exact hwalk.unique (discovery_ofValue h v)

end

/-- A list that holds a map and a list; the map holds that list too, and the list itself and the
root. -/
def staleLoop : Heap :=
  ⟨#[.list [.object 1, .object 2], .map (Dict.ofList [("x", .object 2)]),
    .list [.object 2, .object 0]], 0⟩

lemma children_staleLoop : (staleLoop.read 0).children = [.object 1, .object 2] ∧
    (staleLoop.read 1).children = [.object 2] ∧
    (staleLoop.read 2).children = [.object 2, .object 0] := by
  decide

lemma encard_objectsFrom_staleLoop : (staleLoop.objectsFrom (.object 0)).encard ≤ 2 ^ 32 := by
  obtain ⟨hroot, hmap, hlist⟩ := children_staleLoop
  have hsub : staleLoop.objectsFrom (.object 0) ⊆ ({0, 1, 2} : Finset ℕ) := by
    apply Heap.objectsFrom_subset
    · intro r hr
      cases hr
      decide
    · intro r hr s hs
      have hr : r = 0 ∨ r = 1 ∨ r = 2 := by simpa using hr
      rcases hr with rfl | rfl | rfl
      · rw [hroot] at hs
        simp at hs ⊢
        omega
      · rw [hmap] at hs
        simp at hs ⊢
        omega
      · rw [hlist] at hs
        simp at hs ⊢
        omega
  refine (Set.encard_le_encard hsub).trans ?_
  rw [Set.encard_coe_eq_coe_finsetCard]
  norm_num

/-- The list waits for its turn as the second element of the root, and by then it has been visited
as a field of the map. -/
theorem worklist_eq_recursion_staleLoop :
    (staleLoop.objectsFrom (.object 0)).encard ≤ 2 ^ 32 ∧
      Walked staleLoop (.object 0) (ofValue staleLoop (.object 0)) ∧
      (ofValue staleLoop (.object 0)).sightings =
        [⟨0, []⟩, ⟨1, [.index 0]⟩, ⟨2, [.index 0, .key "x"]⟩] := by
  have hwalked := worklist_eq_recursion staleLoop (.object 0) encard_objectsFrom_staleLoop
  refine ⟨encard_objectsFrom_staleLoop, hwalked, ?_⟩
  exact (hwalked.recursive 4 (by decide)).symm.trans (by rfl)

end ObjectTable
end WorkerHost
