import WorkerHost.Proofs.Wire.NormalForm

/-!
# A wire form decodes alike in every heap

Decoding places the objects of a wire form after those of the heap, so the heap shows in nothing but
their numbers.

* `Wire.decode_error_of_decode_error`: a wire form that can not be decoded fails in every heap, for
  one reason;
* `Wire.decode_isomorphic`: one that can be decoded is the same graph in every heap;
* `Wire.read_of_decode`: the objects that the heap has stay as they are.
-/

namespace WorkerHost.Wire
variable {base count : ℕ} {h h' : Heap} {w : Wire} {v : Value}

/-! ## Failures -/

/-- Where a table begins shows in the objects referred to. -/
lemma resolve_eq_map (base count : ℕ) (s : Slot) :
    resolve base count s = (resolve 0 count s).map (·.rename (base + ·)) := by
  cases s with
  | ref id =>
    simp only [resolve, Nat.zero_add]
    split
    · rfl
    · rfl
  | _ => rfl

lemma object_eq_map (base count : ℕ) (o : WireObject) :
    object base count o = (object 0 count o).map (·.rename (base + ·)) := by
  cases o with
  | list slots =>
    have hslots := mapM_map_comm (q := id) (resolve_eq_map base count) slots
    rw [List.map_id] at hslots
    simp only [object, hslots]
    cases slots.mapM (resolve 0 count) with
    | error e => rfl
    | ok vs => rfl
  | map entries =>
    let entry (base : ℕ) (e : String × Slot) : Except CodecError (String × Value) := do
      return (e.1, ← resolve base count e.2)
    have hentry (e : String × Slot) :
        entry base e = (entry 0 e).map fun p => (p.1, p.2.rename (base + ·)) := by
      simp only [entry]
      rw [resolve_eq_map]
      cases resolve 0 count e.2 with
      | error e => rfl
      | ok v => rfl
    have hentries := mapM_map_comm (q := id) (f := entry 0) (g := entry base) hentry entries
    rw [List.map_id] at hentries
    show (do return .map (Dict.ofList (← entries.mapM (entry base)))) =
      (do return .map (Dict.ofList (← entries.mapM (entry 0))) : Except CodecError Object).map
        (·.rename (base + ·))
    rw [hentries]
    cases entries.mapM (entry 0) with
    | error e => rfl
    | ok es => exact congrArg (fun d => Except.ok (Object.map d)) (Dict.ofList_map _ es)

/-- A wire form that can not be decoded fails in every heap, for one reason. -/
lemma decode_error_of_decode_error {e : CodecError} (hdecode : decode h w = .error e)
    (h' : Heap) : decode h' w = .error e := by
  have hobjects (base : ℕ) :=
    mapM_map_comm (q := id) (object_eq_map base w.objects.length) w.objects
  simp only [List.map_id] at hobjects
  unfold decode at hdecode ⊢
  dsimp only at hdecode ⊢
  rw [hobjects, resolve_eq_map] at hdecode ⊢
  cases hos : w.objects.mapM (object 0 w.objects.length) with
  | error e' =>
    rw [hos] at hdecode
    exact hdecode
  | ok os =>
    rw [hos] at hdecode
    cases hroot : resolve 0 w.objects.length w.root with
    | error e' =>
      rw [hroot] at hdecode
      exact hdecode
    | ok r =>
      rw [hroot] at hdecode
      cases hdecode

/-! ## Graphs -/

lemma toValue_eq_object_iff {s : Slot} {r : ℕ} :
    s.toValue base = .object r ↔ ∃ id, s = .ref id ∧ r = base + id.toNat := by
  cases s <;> simp [Slot.toValue, eq_comm]

/-- The members of an object come from the slots of its entry. -/
lemma exists_slot_of_mem_children {o : WireObject} {u : Value}
    (hu : u ∈ (o.toObject base).children) : ∃ s ∈ o.slots, u = s.toValue base := by
  cases o with
  | list slots =>
    obtain ⟨s, hs, rfl⟩ := List.mem_map.1 hu
    exact ⟨s, hs, rfl⟩
  | map entries =>
    obtain ⟨e, he, rfl⟩ := List.mem_map.1 hu
    have hlast := Dict.mem_of_mem_lastEntries ((Dict.perm_entries_ofList _).subset he)
    obtain ⟨e', he', rfl⟩ := List.mem_map.1 hlast
    exact ⟨e'.2, List.mem_map_of_mem he', rfl⟩

/-- Another place of the table is another number for every object. -/
lemma toValue_rename {f : ℕ → ℕ} {base' : ℕ} {s : Slot} (hs : s.Below count)
    (hf : ∀ i < count, f (base + i) = base' + i) :
    (s.toValue base).rename f = s.toValue base' := by
  cases s with
  | ref id => exact congrArg Value.object (hf _ (hs id rfl))
  | _ => rfl

lemma toObject_rename {f : ℕ → ℕ} {base' : ℕ} {o : WireObject} (ho : ∀ s ∈ o.slots, s.Below count)
    (hf : ∀ i < count, f (base + i) = base' + i) :
    (o.toObject base).rename f = o.toObject base' := by
  cases o with
  | list slots =>
    simp only [WireObject.toObject, Object.rename, List.map_map]
    exact congrArg Object.list (List.map_congr_left fun s hs => toValue_rename (ho s hs) hf)
  | map entries =>
    simp only [WireObject.toObject, Object.rename, ← Dict.ofList_map, List.map_map]
    refine congrArg (fun es => Object.map (Dict.ofList es)) (List.map_congr_left fun e he => ?_)
    exact congrArg (Prod.mk e.1) (toValue_rename (ho e.2 (List.mem_map_of_mem he)) hf)

/-- What a wire form decodes to is the same graph in every heap. -/
theorem decode_isomorphic (hdecode : decode h w = .ok (v, h')) (h₁ : Heap) :
    ∃ v₁ h₂, decode h₁ w = .ok (v₁, h₂) ∧ Isomorphic h' v h₂ v₁ := by
  have hclosed := closed_of_decode hdecode
  rw [decode_eq hclosed] at hdecode
  cases hdecode
  let f (r : ℕ) : ℕ := h₁.size + (r - h.size)
  have hf : ∀ i < w.objects.length, f (h.size + i) = h₁.size + i := by
    intro i _
    simp only [f]
    omega
  -- all that is reachable are the objects of the table
  have hreach : (extend h w).objectsFrom (w.root.toValue h.size) ⊆
      {r | ∃ i < w.objects.length, r = h.size + i} := by
    refine Heap.objectsFrom_subset ?_ ?_
    · intro r hr
      obtain ⟨id, hid, rfl⟩ := toValue_eq_object_iff.1 hr
      exact ⟨id.toNat, hclosed.root id hid, rfl⟩
    · rintro r ⟨i, hi, rfl⟩ s hs
      rw [read_extend (List.getElem?_eq_getElem hi)] at hs
      obtain ⟨slot, hslot, heq⟩ := exists_slot_of_mem_children hs
      obtain ⟨id, hid, rfl⟩ := toValue_eq_object_iff.1 heq.symm
      exact ⟨id.toNat, hclosed.slots _ (List.getElem_mem hi) slot hslot id hid, rfl⟩
  refine ⟨_, _, decode_eq hclosed, f, IsomorphicVia.of_injOn ?_ ?_ ?_⟩
  · intro r hr s hs heq
    obtain ⟨i, -, rfl⟩ := hreach hr
    obtain ⟨j, -, rfl⟩ := hreach hs
    simp only [f] at heq
    omega
  · exact (toValue_rename hclosed.root hf).symm
  · intro r hr
    obtain ⟨i, hi, rfl⟩ := hreach hr
    rw [hf i hi, read_extend (List.getElem?_eq_getElem hi),
      read_extend (List.getElem?_eq_getElem hi)]
    exact (toObject_rename (hclosed.slots _ (List.getElem_mem hi)) hf).symm

/-- The objects that a heap has stay as they are. -/
lemma read_of_decode (hdecode : decode h w = .ok (v, h')) {r : ℕ} (hr : r < h.size) :
    h'.read r = h.read r := by
  rw [decode_eq (closed_of_decode hdecode)] at hdecode
  cases hdecode
  simp only [extend, Heap.read, Array.getD_eq_getD_getElem?]
  rw [Array.getElem?_append_left hr]

end WorkerHost.Wire
