import WorkerHost.Proofs.Wire.Invariance

/-!
# Depth-first order of first visit

`Preorder next seen stack out` is the recursive description of a depth-first walk: the nodes of
`stack` are taken from left to right, one that was seen is passed over, and a new one is written
down before everything below it and only then the nodes to its right are taken. The walk of the
encoder has a stack of its own instead of the recursion; `ObjectTable.preorder_ofValue` says that it
numbers objects in that order.

* `Preorder.unique`: there is one such order only;
* `Preorder.nodup`, `Preorder.mem_iff`: it has every reachable node, once;
* `Preorder.map`: it does not depend on how nodes are called.
-/

namespace WorkerHost

/-- A depth-first walk over a stack of nodes goes from the seen nodes to the nodes `out`. -/
inductive Preorder (next : ℕ → List ℕ) : List ℕ → List ℕ → List ℕ → Prop
  /-- nothing is left to visit -/
  | done (seen : List ℕ) : Preorder next seen [] seen
  /-- a seen node is passed over -/
  | again {seen rest out : List ℕ} {i : ℕ} (hi : i ∈ seen) (hrest : Preorder next seen rest out) :
      Preorder next seen (i :: rest) out
  /-- a new node comes before all that is first reached through it, and that before its siblings -/
  | first {seen below rest out : List ℕ} {i : ℕ} (hi : i ∉ seen)
      (hbelow : Preorder next (seen ++ [i]) (next i) below)
      (hrest : Preorder next below rest out) : Preorder next seen (i :: rest) out

namespace Preorder
variable {next : ℕ → List ℕ} {seen stack out : List ℕ}

/-- The walk over a stack is the walk over its upper part and then over the rest. -/
lemma of_append {upper lower : List ℕ} (hw : Preorder next seen (upper ++ lower) out) :
    ∃ mid, Preorder next seen upper mid ∧ Preorder next mid lower out := by
  induction upper generalizing seen with
  | nil => exact ⟨seen, .done seen, hw⟩
  | cons i upper ih =>
    cases hw with
    | again hi hrest =>
      obtain ⟨mid, hupper, hlower⟩ := ih hrest
      exact ⟨mid, .again hi hupper, hlower⟩
    | first hi hbelow hrest =>
      obtain ⟨mid, hupper, hlower⟩ := ih hrest
      exact ⟨mid, .first hi hbelow hupper, hlower⟩

/-- There is one depth-first order only. -/
theorem unique {out' : List ℕ} (hw : Preorder next seen stack out)
    (hw' : Preorder next seen stack out') : out = out' := by
  induction hw generalizing out' with
  | done seen =>
    cases hw'
    rfl
  | again hi _ ih =>
    cases hw' with
    | again _ hrest => exact ih hrest
    | first hi' _ _ => exact absurd hi hi'
  | first hi _ _ ihbelow ihrest =>
    cases hw' with
    | again hi' _ => exact absurd hi' hi
    | first _ hbelow hrest =>
      cases ihbelow hbelow
      exact ihrest hrest

/-- Seen nodes stay where they are. -/
lemma prefix_of_seen (hw : Preorder next seen stack out) : seen <+: out := by
  induction hw with
  | done seen => exact List.prefix_rfl
  | again _ _ ih => exact ih
  | first _ _ _ ihbelow ihrest => exact ((List.prefix_append _ _).trans ihbelow).trans ihrest

/-- No node is written down twice. -/
theorem nodup (hw : Preorder next seen stack out) (hseen : seen.Nodup) : out.Nodup := by
  induction hw with
  | done seen => exact hseen
  | again _ _ ih => exact ih hseen
  | first hi _ _ ihbelow ihrest =>
    refine ihrest (ihbelow ?_)
    rw [List.nodup_append_comm]
    exact List.nodup_cons.2 ⟨hi, hseen⟩

/-- All nodes of the stack are visited. -/
lemma stack_subset (hw : Preorder next seen stack out) : stack ⊆ out := by
  induction hw with
  | done seen => exact List.nil_subset _
  | again hi hrest ih => exact List.cons_subset.2 ⟨hrest.prefix_of_seen.subset hi, ih⟩
  | first _ hbelow hrest _ ihrest =>
    refine List.cons_subset.2 ⟨hrest.prefix_of_seen.subset ?_, ihrest⟩
    exact hbelow.prefix_of_seen.subset (by simp)

/-- Whatever a newly visited node leads to is visited. -/
lemma next_subset (hw : Preorder next seen stack out) : ∀ i ∈ out, i ∉ seen → next i ⊆ out := by
  induction hw with
  | done seen => exact fun i hi hnew => absurd hi hnew
  | again _ _ ih => exact ih
  | @first seen below rest out j _ hbelow hrest ihbelow ihrest =>
    intro i hi hnew
    -- what `below` has beyond the seen nodes is `j` or was first reached through it
    by_cases hib : i ∈ below
    · refine List.Subset.trans ?_ hrest.prefix_of_seen.subset
      by_cases hij : i = j
      · rw [hij]
        exact hbelow.stack_subset
      · exact ihbelow i hib (by simp [hnew, hij])
    · exact ihrest i hi hib

/-- A property of the seen nodes and of the stack that passes on to what a node leads to holds of
all nodes visited. -/
lemma forall_mem {P : ℕ → Prop} (hw : Preorder next seen stack out)
    (hnext : ∀ i, P i → ∀ j ∈ next i, P j) (hseen : ∀ i ∈ seen, P i) (hstack : ∀ i ∈ stack, P i) :
    ∀ i ∈ out, P i := by
  induction hw with
  | done seen => exact hseen
  | again _ _ ih => exact ih hseen fun i hi => hstack i (List.mem_cons_of_mem _ hi)
  | @first seen below rest out j _ _ _ ihbelow ihrest =>
    have hj : P j := hstack j List.mem_cons_self
    refine ihrest (ihbelow ?_ (hnext j hj)) fun i hi => hstack i (List.mem_cons_of_mem _ hi)
    intro i hi
    rcases List.mem_append.1 hi with hi | hi
    · exact hseen i hi
    · rw [List.mem_singleton.1 hi]
      exact hj

/-- Exactly the nodes that the stack leads to are visited. -/
theorem mem_iff (hw : Preorder next [] stack out) {i : ℕ} :
    i ∈ out ↔ ∃ r ∈ stack, Relation.ReflTransGen (fun a b => b ∈ next a) r i := by
  constructor
  · refine hw.forall_mem (P := fun i => ∃ r ∈ stack, Relation.ReflTransGen _ r i) ?_ (by simp)
      (fun r hr => ⟨r, hr, .refl⟩) i
    intro j hj k hk
    obtain ⟨r, hr, hreach⟩ := hj
    exact ⟨r, hr, hreach.tail hk⟩
  · intro h
    obtain ⟨r, hr, hreach⟩ := h
    induction hreach with
    | refl => exact hw.stack_subset hr
    | tail _ hstep ih => exact hw.next_subset _ ih (by simp) hstep

/-- The order does not depend on how nodes are called. -/
lemma map {next' : ℕ → List ℕ} {g : ℕ → ℕ} {S : Set ℕ} (hinj : Set.InjOn g S)
    (hclosed : ∀ i ∈ S, ∀ j ∈ next i, j ∈ S) (hnext : ∀ i ∈ S, next' (g i) = (next i).map g)
    (hw : Preorder next seen stack out) (hseen : ∀ i ∈ seen, i ∈ S) (hstack : ∀ i ∈ stack, i ∈ S) :
    Preorder next' (seen.map g) (stack.map g) (out.map g) := by
  -- the nodes seen at any time are in `S`, where two nodes have two names
  induction hw with
  | done seen => exact .done _
  | again hi _ ih =>
    exact .again (List.mem_map_of_mem hi)
      (ih hseen fun i hi => hstack i (List.mem_cons_of_mem _ hi))
  | @first seen below rest out j hj hbelow _ ihbelow ihrest =>
    have hjS : j ∈ S := hstack j List.mem_cons_self
    have hseen' : ∀ i ∈ seen ++ [j], i ∈ S := by
      intro i hi
      rcases List.mem_append.1 hi with hi | hi
      · exact hseen i hi
      · rw [List.mem_singleton.1 hi]
        exact hjS
    have hbelow' := ihbelow hseen' (hclosed j hjS)
    rw [List.map_append, List.map_singleton, ← hnext j hjS] at hbelow'
    refine .first ?_ hbelow' ?_
    · intro hmem
      obtain ⟨i, hi, heq⟩ := List.mem_map.1 hmem
      exact hj (hinj (hseen i hi) hjS heq ▸ hi)
    · exact ihrest (hbelow.forall_mem (P := (· ∈ S)) hclosed hseen' (hclosed j hjS))
        fun i hi => hstack i (List.mem_cons_of_mem _ hi)

end Preorder

/-! ## The order of numbers -/

/-- The object that a value refers to. -/
def Value.ref? : Value → Option ℕ
  | .object r => some r
  | _ => none

@[simp] lemma Value.ref?_eq_some_iff {v : Value} {r : ℕ} : v.ref? = some r ↔ v = .object r := by
  cases v <;> simp [ref?]

/-- The objects that an object holds, in the order of their places. -/
def Heap.next (h : Heap) (r : ℕ) : List ℕ :=
  (h.read r).children.filterMap Value.ref?

namespace ObjectTable

lemma map_ref_childrenOf (parent : ℕ) (ps : List (Segment × Value)) :
    (childrenOf parent ps).map (·.ref) = (ps.map (·.2)).filterMap Value.ref? := by
  fun_induction childrenOf parent ps with
  | case1 => rfl
  | case2 s r rest ih => simp [Value.ref?, ih]
  | case3 p rest hp ih =>
    have hnone : p.2.ref? = none := by
      rw [Option.eq_none_iff_forall_ne_some]
      intro r hr
      exact hp p.1 r (by rw [← Value.ref?_eq_some_iff.1 hr])
    simp [hnone, ih]

/-- The walk with a stack visits objects as the recursive walk does. -/
lemma preorder_collect (h : Heap) {t : ObjectTable} (ht : t.Coherent) (stack : List Pending) :
    Preorder h.next t.order.toList (stack.map (·.ref)) (collect h t stack).order.toList := by
  fun_induction collect h t stack with
  | case1 t => exact .done _
  | case2 t p stack hnum ih =>
    exact .again (Array.mem_toList_iff.2 (ht.contains_iff.1 hnum)) (ih ht)
  | case3 t p stack hnum _ ih =>
    have hnew : p.ref ∉ t.order.toList :=
      fun hmem => hnum (ht.contains_iff.2 (Array.mem_toList_iff.1 hmem))
    -- on the stack the children of the new object stand before its siblings
    have hwalk := ih (ht.visit hnum)
    rw [List.map_append, map_ref_childrenOf, map_snd_places] at hwalk
    obtain ⟨below, hbelow, hrest⟩ := hwalk.of_append
    refine .first hnew ?_ hrest
    simpa [visit, Heap.next] using hbelow
  | case4 t p stack hnum hlt ih =>
    have hnew : p.ref ∉ t.order.toList :=
      fun hmem => hnum (ht.contains_iff.2 (Array.mem_toList_iff.1 hmem))
    have hnext : h.next p.ref = [] := by
      rw [Heap.next, Heap.read_of_size_le hlt]
      rfl
    refine .first hnew ?_ (ih (ht.visit hnum))
    rw [hnext]
    simpa [visit] using Preorder.done (t.order.toList ++ [p.ref])

/-- Objects are numbered in depth-first order of first visit. -/
theorem preorder_ofValue (h : Heap) (v : Value) :
    Preorder h.next [] v.ref?.toList (ofValue h v).order.toList := by
  cases v with
  | object r => exact preorder_collect h coherent_empty [⟨r, none, none⟩]
  | _ => exact .done []

end ObjectTable
end WorkerHost
