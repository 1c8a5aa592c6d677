import Mathlib.Data.List.Forall2
import Mathlib.Data.List.Induction
import Mathlib.Data.List.Nodup
import Mathlib.Tactic.Common
import WorkerHost.Value.Dict

/-!
# Dictionaries as finite maps

What each operation of `Dict` does to `get?`, to the keys and to `map`, and the two facts that
make a dictionary a normal form: a sorted list of entries is the dictionary it builds, and any list
builds the dictionary of its last entries, sorted (`Dict.entries_ofList_eq_mergeSort`).
-/

namespace WorkerHost.Dict
variable {α β γ : Type}

/-- Dictionaries with the same entries are equal. -/
lemma ext_entries {d e : Dict α} (h : d.entries = e.entries) : d = e := by
  cases d; cases e; cases h; rfl

@[simp] lemma entries_empty : (empty : Dict α).entries = [] := rfl

@[simp] lemma entries_map (f : α → β) (d : Dict α) :
    (d.map f).entries = d.entries.map fun e => (e.1, f e.2) := rfl

@[simp] lemma values_map (f : α → β) (d : Dict α) : (d.map f).values = d.values.map f := by
  simp [values]

lemma map_map (f : α → β) (g : β → γ) (d : Dict α) : (d.map f).map g = d.map (g ∘ f) :=
  ext_entries (by simp [Function.comp_def])

lemma map_congr {f g : α → β} {d : Dict α} (h : ∀ a ∈ d.values, f a = g a) : d.map f = d.map g := by
  apply ext_entries
  simp only [entries_map]
  apply List.map_congr_left
  intro e he
  rw [h e.2 (List.mem_map_of_mem he)]

lemma map_id' (d : Dict α) : d.map (fun a => a) = d :=
  ext_entries (by simp)

lemma get?_map (f : α → β) (d : Dict α) (k : String) : (d.map f).get? k = (d.get? k).map f := by
  simp only [get?, entries_map, List.find?_map]
  rw [Option.map_map, Option.map_map]
  rfl

/-- What stands under a key is one of the values. -/
lemma mem_values_of_get? {d : Dict α} {k : String} {a : α} (h : d.get? k = some a) :
    a ∈ d.values := by
  obtain ⟨e, he, rfl⟩ := Option.map_eq_some_iff.1 h
  exact List.mem_map_of_mem (List.mem_of_find?_eq_some he)

/-- An entry with a key beyond all others goes to the end. -/
lemma insertEntry_of_forall_lt {k : String} {v : α} {es : List (String × α)}
    (h : ∀ e ∈ es, e.1 < k) : insertEntry k v es = es ++ [(k, v)] := by
  induction es with
  | nil => rfl
  | cons e rest ih =>
    obtain ⟨k', v'⟩ := e
    have hlt : k' < k := h (k', v') List.mem_cons_self
    have hne : k ≠ k' := fun heq => String.lt_irrefl k (heq ▸ hlt)
    have hnlt : ¬ k < k' := fun hgt => String.lt_irrefl k (String.lt_trans hgt hlt)
    simp only [insertEntry, hnlt, hne, if_false, List.cons_append]
    rw [ih fun e he => h e (List.mem_cons_of_mem _ he)]

/-- Sorted entries build the dictionary that has them. -/
lemma entries_ofList {es : List (String × α)} (h : es.Pairwise (fun a b => a.1 < b.1)) :
    (ofList es).entries = es := by
  have key : ∀ (rest : List (String × α)) (d : Dict α),
      (d.entries ++ rest).Pairwise (fun a b => a.1 < b.1) →
      (rest.foldl (fun d e => d.insert e.1 e.2) d).entries = d.entries ++ rest := by
    intro rest
    induction rest with
    | nil => intro d _; simp
    | cons e rest ih =>
      intro d hd
      have hlast : (d.insert e.1 e.2).entries = d.entries ++ [e] := by
        apply insertEntry_of_forall_lt
        intro a ha
        exact (List.pairwise_append.1 hd).2.2 a ha e List.mem_cons_self
      rw [List.foldl_cons, ih _ (by rw [hlast]; simpa using hd), hlast]
      simp
  exact key es empty (by simpa using h)

/-- A dictionary is what its entries build. -/
lemma ofList_entries (d : Dict α) : ofList d.entries = d :=
  ext_entries (entries_ofList d.sorted)

/-- The entries of a dictionary with their values changed build the dictionary so changed. -/
lemma ofList_map_entries (f : α → β) (d : Dict α) :
    ofList (d.entries.map fun e => (e.1, f e.2)) = d.map f :=
  ofList_entries (d.map f)

lemma insert_map (f : α → β) (d : Dict α) (k : String) (a : α) :
    (d.insert k a).map f = (d.map f).insert k (f a) := by
  have hentry : ∀ es : List (String × α), (insertEntry k a es).map (fun e => (e.1, f e.2)) =
      insertEntry k (f a) (es.map fun e => (e.1, f e.2)) := by
    intro es
    induction es with
    | nil => rfl
    | cons e es ih =>
      simp only [insertEntry, List.map_cons]
      split
      · rfl
      · split
        · rfl
        · rw [List.map_cons, ih]
  exact ext_entries (hentry d.entries)

/-- Values may be changed before a dictionary is built or afterwards. -/
lemma ofList_map (f : α → β) (es : List (String × α)) :
    ofList (es.map fun e => (e.1, f e.2)) = (ofList es).map f := by
  have key : ∀ d : Dict α, (es.map fun e => (e.1, f e.2)).foldl
      (fun d e => d.insert e.1 e.2) (d.map f) =
        (es.foldl (fun d e => d.insert e.1 e.2) d).map f := by
    induction es with
    | nil => intro d; rfl
    | cons e es ih =>
      intro d
      rw [List.map_cons, List.foldl_cons, List.foldl_cons, ← insert_map, ih]
  exact key empty

lemma get?_insert_self (d : Dict α) (k : String) (a : α) : (d.insert k a).get? k = some a := by
  have hentry : ∀ es : List (String × α), (insertEntry k a es).find? (·.1 == k) = some (k, a) := by
    intro es
    induction es with
    | nil => simp [insertEntry]
    | cons e es ih =>
      obtain ⟨k', a'⟩ := e
      simp only [insertEntry]
      split
      · simp
      · split
        · simp
        · next hne => rw [List.find?_cons_of_neg (by simpa using Ne.symm hne), ih]
  rw [get?, insert, hentry]
  rfl

lemma get?_insert (d : Dict α) (k k' : String) (a : α) :
    (d.insert k a).get? k' = if k = k' then some a else d.get? k' := by
  split
  · next heq => rw [← heq, get?_insert_self]
  · next hne =>
    have hentry (es : List (String × α)) :
        (insertEntry k a es).find? (·.1 == k') = es.find? (·.1 == k') := by
      induction es with
      | nil => simp [insertEntry, hne]
      | cons e es ih =>
        simp only [insertEntry]
        split
        · rw [List.find?_cons_of_neg (by simpa using hne)]
        · split
          · next heq =>
            rw [List.find?_cons_of_neg (by simpa using hne),
              List.find?_cons_of_neg (by simpa [← heq] using hne)]
          · simp only [List.find?_cons, ih]
    rw [get?, get?, insert, hentry]

/-! ## Entries in any order -/

/-- An insertion takes out what stood under the key. -/
lemma perm_insertEntry (k : String) (v : α) {es : List (String × α)}
    (h : es.Pairwise fun a b => a.1 < b.1) :
    (insertEntry k v es).Perm ((k, v) :: es.filter (·.1 != k)) := by
  induction es with
  | nil => exact .refl _
  | cons e rest ih =>
    obtain ⟨k', v'⟩ := e
    obtain ⟨hhead, hrest⟩ := List.pairwise_cons.1 h
    have hkeep : ∀ a ∈ rest, k ≤ k' → (a.1 != k) = true := by
      intro a ha hle
      have hlt : k < a.1 := Std.lt_of_le_of_lt hle (hhead a ha)
      simpa using (Std.ne_of_lt hlt).symm
    simp only [insertEntry]
    split
    · next hlt =>
      have hne : k' ≠ k := (Std.ne_of_lt hlt).symm
      rw [List.filter_cons_of_pos (by simpa using hne),
        List.filter_eq_self.2 fun a ha => hkeep a ha (Std.le_of_lt hlt)]
    · split
      · next heq =>
        rw [List.filter_cons_of_neg (by simp [heq]),
          List.filter_eq_self.2 fun a ha => hkeep a ha (heq ▸ Std.le_refl k)]
      · next hne =>
        rw [List.filter_cons_of_pos (by simpa using Ne.symm hne)]
        exact ((ih hrest).cons _).trans (.swap _ _ _)

/-- The entries without those that a later one for the same key replaces. -/
def lastEntries : List (String × α) → List (String × α)
  | [] => []
  | e :: es => if es.any (·.1 == e.1) then lastEntries es else e :: lastEntries es

lemma lastEntries_sublist (es : List (String × α)) : (lastEntries es).Sublist es := by
  induction es with
  | nil => exact .slnil
  | cons a es ih =>
    rw [lastEntries]
    split
    · exact ih.cons a
    · exact ih.cons_cons a

lemma mem_of_mem_lastEntries {es : List (String × α)} {e : String × α} (he : e ∈ lastEntries es) :
    e ∈ es :=
  (lastEntries_sublist es).subset he

lemma lastEntries_concat (es : List (String × α)) (e : String × α) :
    lastEntries (es ++ [e]) = (lastEntries es).filter (·.1 != e.1) ++ [e] := by
  induction es with
  | nil => rfl
  | cons a es ih =>
    simp only [List.cons_append, lastEntries, List.any_append, List.any_cons, List.any_nil,
      Bool.or_false, ih]
    by_cases hlater : (es.any (·.1 == a.1)) = true
    · simp [hlater]
    · by_cases hkey : e.1 = a.1
      · simp [hlater, hkey]
      · simp [hlater, hkey, Ne.symm hkey]

/-- A dictionary is built of the last entry of every key. -/
lemma perm_entries_ofList (es : List (String × α)) :
    (ofList es).entries.Perm (lastEntries es) := by
  induction es using List.reverseRecOn with
  | nil => exact .refl _
  | append_singleton es e ih =>
    have hlast : (ofList (es ++ [e])).entries = insertEntry e.1 e.2 (ofList es).entries := by
      simp [ofList, insert]
    rw [hlast, lastEntries_concat]
    have hinsert := perm_insertEntry e.1 e.2 (ofList es).sorted
    have hfilter := (ih.filter (·.1 != e.1)).cons e
    exact (hinsert.trans hfilter).trans (List.perm_append_singleton _ _).symm

lemma nodup_keys (d : Dict α) : d.keys.Nodup :=
  List.pairwise_map.2 (d.sorted.imp Std.ne_of_lt)

/-- What stands under a key is the value of its entry. -/
lemma get?_eq_some_iff {d : Dict α} {k : String} {a : α} :
    d.get? k = some a ↔ (k, a) ∈ d.entries := by
  rw [get?, Option.map_eq_some_iff]
  constructor
  · intro hx
    obtain ⟨⟨k', a'⟩, he, rfl⟩ := hx
    have hk : k' = k := by simpa using List.find?_some he
    exact hk ▸ List.mem_of_find?_eq_some he
  · intro hmem
    have hsome : (d.entries.find? (·.1 == k)).isSome := by
      rw [List.find?_isSome]
      exact ⟨_, hmem, by simp⟩
    obtain ⟨e, he⟩ := Option.isSome_iff_exists.1 hsome
    have hk : e.1 = k := by simpa using List.find?_some he
    have heq : e = (k, a) :=
      List.inj_on_of_nodup_map d.nodup_keys (List.mem_of_find?_eq_some he) hmem hk
    exact ⟨e, he, by rw [heq]⟩

/-- The last entry for a key wins. -/
lemma get?_ofList (es : List (String × α)) (k : String) :
    (ofList es).get? k = (es.findRev? (·.1 == k)).map (·.2) := by
  induction es using List.reverseRecOn with
  | nil => rfl
  | append_singleton es e ih =>
    have hlast : ofList (es ++ [e]) = (ofList es).insert e.1 e.2 := by
      simp [ofList]
    rw [hlast, get?_insert, ih, List.findRev?_eq_find?_reverse, List.findRev?_eq_find?_reverse,
      List.reverse_concat]
    split
    · next heq => rw [List.find?_cons_of_pos (by simpa using heq), Option.map_some]
    · next hne => rw [List.find?_cons_of_neg (by simpa using hne)]

/-- The entries of a dictionary: those it was built of, without the ones that were replaced, in the
order of their keys. -/
theorem entries_ofList_eq_mergeSort (es : List (String × α)) :
    (ofList es).entries = (lastEntries es).mergeSort fun a b => a.1 ≤ b.1 := by
  have hperm : (ofList es).entries.Perm ((lastEntries es).mergeSort fun a b => a.1 ≤ b.1) :=
    (perm_entries_ofList es).trans (List.mergeSort_perm _ _).symm
  have hkeys : (ofList es).keys.Nodup := (ofList es).nodup_keys
  have hsorted := @List.pairwise_mergeSort _ (fun a b : String × α => decide (a.1 ≤ b.1))
    (fun a b c => by simpa using Std.le_trans) (fun a b => by simpa using Std.le_total)
    (lastEntries es)
  -- entries in both orders are entries of the dictionary, where a key stands once
  have hantisymm : ∀ a b, a ∈ (ofList es).entries →
      b ∈ (lastEntries es).mergeSort (fun a b => a.1 ≤ b.1) → a.1 ≤ b.1 → b.1 ≤ a.1 → a = b := by
    intro a b ha hb hab hba
    have hb : b ∈ (ofList es).entries := hperm.mem_iff.2 hb
    exact List.inj_on_of_nodup_map hkeys ha hb (Std.le_antisymm hab hba)
  exact hperm.eq_of_pairwise hantisymm ((ofList es).sorted.imp Std.le_of_lt)
    (hsorted.imp fun h => of_decide_eq_true h)

/-! ## Related dictionaries -/

/-- The dictionaries have the same keys, and related values under them. -/
def Rel (R : α → β → Prop) (d : Dict α) (e : Dict β) : Prop :=
  List.Forall₂ (fun a b => a.1 = b.1 ∧ R a.2 b.2) d.entries e.entries

namespace Rel
variable {R : α → β → Prop} {S : β → γ → Prop} {T : α → γ → Prop} {d : Dict α} {e : Dict β}
  {c : Dict γ} {a : α} {b : β}

lemma empty : Rel R (.empty : Dict α) (.empty : Dict β) :=
  .nil

lemma refl {R : α → α → Prop} (hR : ∀ a, R a a) (d : Dict α) : Rel R d d :=
  List.forall₂_same.2 fun a _ => ⟨rfl, hR a.2⟩

lemma map_left (f : β → α) (hR : ∀ b, R (f b) b) (e : Dict β) : Rel R (e.map f) e := by
  rw [Rel, entries_map, List.forall₂_map_left_iff]
  exact List.forall₂_same.2 fun b _ => ⟨rfl, hR b.2⟩

lemma keys (h : Rel R d e) : d.keys = e.keys := by
  unfold Rel at h
  unfold Dict.keys
  generalize d.entries = ds, e.entries = es at h ⊢
  induction h with
  | nil => rfl
  | cons hab _ ih => rw [List.map_cons, List.map_cons, hab.1, ih]

/-- Entries with the keys of a dictionary are sorted as its own are. -/
lemma sorted {es : List (String × β)}
    (h : List.Forall₂ (fun a b => a.1 = b.1 ∧ R a.2 b.2) d.entries es) :
    es.Pairwise fun a b => a.1 < b.1 := by
  have hkeys : d.entries.map (·.1) = es.map (·.1) := by
    generalize d.entries = ds at h
    induction h with
    | nil => rfl
    | cons hab _ ih => rw [List.map_cons, List.map_cons, hab.1, ih]
  have hsorted : (d.entries.map (·.1)).Pairwise (· < ·) := List.pairwise_map.2 d.sorted
  rw [hkeys] at hsorted
  exact List.pairwise_map.1 hsorted

/-- Under a key, both have nothing or related values. -/
lemma get? (h : Rel R d e) (k : String) : Option.Rel R (d.get? k) (e.get? k) := by
  unfold Rel at h
  unfold Dict.get?
  generalize d.entries = ds, e.entries = es at h ⊢
  induction h with
  | nil => exact .none
  | @cons a b as bs hab _ ih =>
    simp only [List.find?_cons, hab.1]
    split
    · exact .some hab.2
    · exact ih

lemma insert (h : Rel R d e) (k : String) (hab : R a b) : Rel R (d.insert k a) (e.insert k b) := by
  unfold Rel at h ⊢
  dsimp only [Dict.insert]
  generalize d.entries = ds, e.entries = es at h ⊢
  induction h with
  | nil => exact .cons ⟨rfl, hab⟩ .nil
  | @cons x y xs ys hxy hrest ih =>
    obtain ⟨kx, x⟩ := x
    obtain ⟨ky, y⟩ := y
    obtain ⟨rfl, hxy⟩ := hxy
    simp only [insertEntry]
    split
    · exact .cons ⟨rfl, hab⟩ (.cons ⟨rfl, hxy⟩ hrest)
    · split
      · exact .cons ⟨rfl, hab⟩ hrest
      · exact .cons ⟨rfl, hxy⟩ ih

lemma erase (h : Rel R d e) (k : String) : Rel R (d.erase k) (e.erase k) := by
  unfold Rel at h ⊢
  dsimp only [Dict.erase]
  generalize d.entries = ds, e.entries = es at h ⊢
  induction h with
  | nil => exact .nil
  | @cons x y xs ys hxy _ ih =>
    simp only [List.filter_cons, hxy.1]
    split
    · exact .cons hxy ih
    · exact ih

lemma comp (h : Rel R d e) (h' : Rel S e c) (hT : ∀ a b c, R a b → S b c → T a c) : Rel T d c := by
  unfold Rel at h h' ⊢
  generalize d.entries = ds, e.entries = es, c.entries = cs at h h' ⊢
  induction h generalizing cs with
  | nil =>
    cases h'
    exact .nil
  | cons hab _ ih =>
    cases h' with
    | cons hbc hrest =>
      exact .cons ⟨hab.1.trans hbc.1, hT _ _ _ hab.2 hbc.2⟩ (ih _ hrest)

end Rel

end WorkerHost.Dict
