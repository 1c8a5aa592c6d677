import Mathlib.Data.Finset.Card
import Mathlib.Data.Set.Card
import WorkerHost.Proofs.Value.Isomorphism
import WorkerHost.Wire.Encode

/-!
# The numbering of reachable objects

`ObjectTable.ofValue` walks a graph with a stack of its own. `Walk` is what holds of the table and
the stack at every turn of the walk; when the stack is empty it says that exactly the reachable
objects have numbers.

* `ofValue_coherent`: `ids` and `order` are inverse to each other, so no two objects share a number;
* `mem_order_ofValue`: the numbered objects are the reachable ones;
* `size_order_ofValue`: there are as many numbers as reachable objects.
-/

namespace WorkerHost

namespace ObjectTable

/-! ## Numbers and objects -/

/-- The number of an object and the object of a number determine each other. -/
structure Coherent (t : ObjectTable) : Prop where
  ids_iff : ∀ r i : ℕ, t.ids[r]? = some i ↔ t.order[i]? = some r

lemma coherent_empty : empty.Coherent :=
  ⟨fun r i => by simp [empty]⟩

namespace Coherent
variable {t : ObjectTable} {r : ℕ}

lemma contains_iff (ht : t.Coherent) : t.ids.contains r = true ↔ r ∈ t.order := by
  rw [Array.mem_iff_getElem?, Std.HashMap.contains_eq_isSome_getElem?, Option.isSome_iff_exists]
  exact exists_congr fun i => ht.ids_iff r i

/-- A visit gives the next number to an object without one. -/
lemma visit (ht : t.Coherent) {p : Pending} (hnew : ¬ t.ids.contains p.ref = true) :
    (t.visit p).Coherent := by
  constructor
  intro r i
  simp only [ObjectTable.visit]
  rw [Std.HashMap.getElem?_insert, Array.getElem?_push]
  -- the new object gets the number behind all others, every other object keeps its own
  by_cases hr : p.ref = r
  · subst hr
    have hnone : ∀ j : ℕ, t.order[j]? ≠ some p.ref := by
      intro j hj
      exact hnew (ht.contains_iff.2 (Array.mem_of_getElem? hj))
    by_cases hi : i = t.order.size
    · simp [hi]
    · simp only [beq_self_eq_true, if_true, Option.some.injEq, hi, if_false]
      exact ⟨fun h => absurd h.symm hi, fun h => absurd h (hnone i)⟩
  · have hbeq : (p.ref == r) = false := by simpa using hr
    rw [hbeq]
    by_cases hi : i = t.order.size
    · have hnone : t.order[t.order.size]? = none := Array.getElem?_eq_none (Nat.le_refl _)
      simp only [Bool.false_eq_true, if_false, hi, if_true, Option.some.injEq, hr, iff_false]
      intro hsome
      rw [(ht.ids_iff r t.order.size).1 hsome] at hnone
      cases hnone
    · simp only [Bool.false_eq_true, if_false, hi]
      exact ht.ids_iff r i

end Coherent

/-- The number of an object. -/
def number (t : ObjectTable) (r : ℕ) : ℕ :=
  (t.ids[r]?).getD 0

namespace Coherent
variable {t : ObjectTable} {r s : ℕ}

lemma getElem?_ids (ht : t.Coherent) (hr : r ∈ t.order) : t.ids[r]? = some (t.number r) := by
  obtain ⟨i, hi⟩ := Array.mem_iff_getElem?.1 hr
  rw [number, (ht.ids_iff r i).2 hi]
  rfl

lemma getElem?_order (ht : t.Coherent) (hr : r ∈ t.order) : t.order[t.number r]? = some r :=
  (ht.ids_iff r _).1 (ht.getElem?_ids hr)

lemma number_lt (ht : t.Coherent) (hr : r ∈ t.order) : t.number r < t.order.size := by
  by_contra hge
  have hnone := Array.getElem?_eq_none (Nat.le_of_not_lt hge)
  rw [ht.getElem?_order hr] at hnone
  cases hnone

/-- Different objects have different numbers. -/
lemma number_inj (ht : t.Coherent) (hr : r ∈ t.order) (hs : s ∈ t.order)
    (heq : t.number r = t.number s) : r = s := by
  have hr' := ht.getElem?_order hr
  rw [heq, ht.getElem?_order hs] at hr'
  exact (Option.some.inj hr').symm

lemma nodup_order (ht : t.Coherent) : t.order.toList.Nodup := by
  rw [List.nodup_iff_getElem?_ne_getElem?]
  intro i j hij hj heq
  have hsome : t.order[j]? = some t.order[j] := Array.getElem?_eq_getElem hj
  simp only [Array.getElem?_toList] at heq
  have hi := (ht.ids_iff _ i).2 (heq.trans hsome)
  rw [(ht.ids_iff _ j).2 hsome] at hi
  exact Nat.ne_of_gt hij (Option.some.inj hi)

end Coherent

/-! ## The walk -/

lemma map_snd_places (o : Object) : (places o).map (·.2) = o.children := by
  cases o with
  | list items =>
    apply List.ext_getElem?
    intro i
    simp [places, Object.children]
  | map entries => simp [places, Object.children, Dict.values]

/-- The objects that go on the stack are those that stand in the given places. -/
lemma exists_childrenOf_iff {parent c : ℕ} {ps : List (Segment × Value)} :
    (∃ p ∈ childrenOf parent ps, p.ref = c) ↔ .object c ∈ ps.map (·.2) := by
  fun_induction childrenOf parent ps with
  | case1 => simp
  | case2 s ref rest ih =>
    simp only [List.mem_cons, List.map_cons, Value.object.injEq, exists_eq_or_imp]
    exact or_congr eq_comm ih
  | case3 p rest hp ih =>
    have hne : Value.object c ≠ p.2 := by
      intro heq
      exact hp p.1 c (by rw [heq])
    simp only [List.map_cons, List.mem_cons, hne, false_or]
    exact ih

/-- What goes on the stack for an object are the objects it holds. -/
lemma exists_childrenOf_places {parent c : ℕ} {o : Object} :
    (∃ p ∈ childrenOf parent (places o), p.ref = c) ↔ .object c ∈ o.children := by
  rw [exists_childrenOf_iff, map_snd_places]

/-- The object has its number, or the walk has still to visit it. -/
def Known (t : ObjectTable) (stack : List Pending) (r : ℕ) : Prop :=
  r ∈ t.order ∨ ∃ p ∈ stack, p.ref = r

/-- What holds at every turn of the walk from `v`. -/
structure Walk (h : Heap) (v : Value) (t : ObjectTable) (stack : List Pending) : Prop where
  coherent : t.Coherent
  numbered_reachable : ∀ r ∈ t.order, r ∈ h.objectsFrom v
  pending_reachable : ∀ p ∈ stack, p.ref ∈ h.objectsFrom v
  root_known : ∀ r, v = .object r → t.Known stack r
  children_known : ∀ r ∈ t.order, ∀ c, .object c ∈ (h.read r).children → t.Known stack c

namespace Walk
variable {h : Heap} {v : Value} {t : ObjectTable} {p : Pending} {stack : List Pending}

/-- Passing over a numbered object loses nothing. -/
lemma pass (hw : Walk h v t (p :: stack)) (hold : t.ids.contains p.ref = true) :
    Walk h v t stack := by
  have hmem : p.ref ∈ t.order := hw.coherent.contains_iff.1 hold
  -- the object on top was the only one that leaves the stack, and it has its number
  have known : ∀ r, t.Known (p :: stack) r → t.Known stack r := by
    intro r hx
    rcases hx with hr | ⟨q, hq, rfl⟩
    · exact .inl hr
    · rcases List.mem_cons.1 hq with rfl | hq
      · exact .inl hmem
      · exact .inr ⟨q, hq, rfl⟩
  exact ⟨hw.coherent, hw.numbered_reachable,
    fun q hq => hw.pending_reachable q (List.mem_cons_of_mem _ hq),
    fun r hr => known r (hw.root_known r hr),
    fun r hr c hc => known c (hw.children_known r hr c hc)⟩

/-- A visit makes the children of the visited object known. -/
lemma visit (hw : Walk h v t (p :: stack)) (hnew : ¬ t.ids.contains p.ref = true) :
    Walk h v (t.visit p) (childrenOf t.order.size (places (h.read p.ref)) ++ stack) := by
  have hp : p.ref ∈ h.objectsFrom v := hw.pending_reachable p List.mem_cons_self
  -- the object on top gets its number, its children come to the stack
  have mem_visit : ∀ r, r ∈ (t.visit p).order ↔ r ∈ t.order ∨ r = p.ref := by
    intro r
    simp [ObjectTable.visit]
  have known : ∀ r, t.Known (p :: stack) r →
      (t.visit p).Known (childrenOf t.order.size (places (h.read p.ref)) ++ stack) r := by
    intro r hx
    rcases hx with hr | ⟨q, hq, rfl⟩
    · exact .inl ((mem_visit r).2 (.inl hr))
    · rcases List.mem_cons.1 hq with rfl | hq
      · exact .inl ((mem_visit _).2 (.inr rfl))
      · exact .inr ⟨q, List.mem_append_right _ hq, rfl⟩
  refine ⟨hw.coherent.visit hnew, ?_, ?_, fun r hr => known r (hw.root_known r hr), ?_⟩
  · intro r hr
    rcases (mem_visit r).1 hr with hr | rfl
    · exact hw.numbered_reachable r hr
    · exact hp
  · intro q hq
    rcases List.mem_append.1 hq with hq | hq
    · exact Heap.Reaches.child hp (exists_childrenOf_places.1 ⟨q, hq, rfl⟩)
    · exact hw.pending_reachable q (List.mem_cons_of_mem _ hq)
  · intro r hr c hc
    rcases (mem_visit r).1 hr with hr | rfl
    · exact known c (hw.children_known r hr c hc)
    · obtain ⟨q, hq, hqc⟩ := exists_childrenOf_places.2 hc
      exact .inr ⟨q, List.mem_append_left _ hq, hqc⟩

/-- The walk ends with nothing left to visit. -/
lemma collect (hw : Walk h v t stack) : Walk h v (collect h t stack) [] := by
  fun_induction ObjectTable.collect h t stack with
  | case1 t => exact hw
  | case2 t p stack hold ih => exact ih (hw.pass hold)
  | case3 t p stack hnew _ ih => exact ih (hw.visit hnew)
  -- outside the heap an object reads as an empty list, which puts nothing on the stack
  | case4 t p stack hnew hlt ih =>
    have hvisit := hw.visit hnew
    rw [Heap.read_of_size_le hlt] at hvisit
    exact ih hvisit

end Walk

variable {h : Heap} {v : Value}

lemma walk_ofValue (h : Heap) (v : Value) : Walk h v (ofValue h v) [] := by
  cases v with
  | object r =>
    refine Walk.collect ⟨coherent_empty, ?_, ?_, ?_, ?_⟩
    · simp [empty]
    · intro p hp
      rw [List.mem_singleton.1 hp]
      exact Heap.objectsFrom_object_self
    · intro s heq
      cases heq
      exact .inr ⟨_, List.mem_singleton_self _, rfl⟩
    · simp [empty]
  | _ =>
    exact ⟨coherent_empty, by simp [ofValue, empty], by simp, by simp, by simp [ofValue, empty]⟩

lemma ofValue_coherent (h : Heap) (v : Value) : (ofValue h v).Coherent :=
  (walk_ofValue h v).coherent

/-- Exactly the reachable objects get a number. -/
lemma mem_order_ofValue {r : ℕ} : r ∈ (ofValue h v).order ↔ r ∈ h.objectsFrom v := by
  have hw := walk_ofValue h v
  have numbered : ∀ c, (ofValue h v).Known [] c → c ∈ (ofValue h v).order := by
    intro c hx
    rcases hx with hc | ⟨p, hp, -⟩
    · exact hc
    · cases hp
  -- the numbered objects are closed under children once the stack is empty
  refine ⟨hw.numbered_reachable r, fun hr => ?_⟩
  exact Heap.objectsFrom_subset (S := {c | c ∈ (ofValue h v).order})
    (fun c hc => numbered c (hw.root_known c hc))
    (fun c hc d hd => numbered d (hw.children_known c hc d hd)) hr

/-- There are as many numbers as reachable objects. -/
lemma size_order_ofValue : ((ofValue h v).order.size : ℕ∞) = (h.objectsFrom v).encard := by
  have hset : h.objectsFrom v = ((ofValue h v).order.toList.toFinset : Set ℕ) := by
    ext r
    simp [← mem_order_ofValue]
  rw [hset, Set.encard_coe_eq_coe_finsetCard,
    List.toFinset_card_of_nodup (ofValue_coherent h v).nodup_order, Array.length_toList]

end ObjectTable
end WorkerHost
