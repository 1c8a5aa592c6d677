import Mathlib.Tactic.Lemma
import WorkerHost.Text.Words

/-!
# Pieces of a text

With more separators a piece without any of them stays a piece, `mem_splitOnP_of_le`.
-/

namespace WorkerHost.Text
variable {p q : Char → Bool} {c : Char}

/-- The pieces that have no separator are among others. -/
def KeptIn (q : Char → Bool) (pieces pieces' : List (List Char)) : Prop :=
  ∀ l ∈ pieces, (∀ c ∈ l, q c = false) → l ∈ pieces'

lemma KeptIn.cons {piece piece' : List Char} {more more' : List (List Char)}
    (hfirst : (∀ c ∈ piece, q c = false) → piece' = piece) (h : KeptIn q more more') :
    KeptIn q (piece :: more) (piece' :: more') := by
  intro l hl hfree
  rcases List.mem_cons.1 hl with rfl | hl
  · exact hfirst hfree ▸ List.mem_cons_self
  · exact List.mem_cons_of_mem _ (h l hl hfree)

/-- Of the first piece more has to be said, as it grows with the text. -/
lemma exists_splitOnP_of_le (hpq : ∀ c, p c = true → q c = true) (s : List Char) :
    ∃ piece more piece' more', s.splitOnP p = piece :: more ∧ s.splitOnP q = piece' :: more' ∧
      ((∀ c ∈ piece, q c = false) → piece' = piece) ∧ KeptIn q more more' := by
  induction s with
  | nil => exact ⟨[], [], [], [], rfl, rfl, fun _ => rfl, nofun⟩
  | cons c s ih =>
    obtain ⟨piece, more, piece', more', hp, hq, hfirst, hmore⟩ := ih
    cases hpc : p c with
    | true =>
      refine ⟨[], piece :: more, [], piece' :: more', ?_, ?_, fun _ => rfl, .cons hfirst hmore⟩
      · rw [List.splitOnP_cons_eq_if_modifyHead, if_pos hpc, hp]
      · rw [List.splitOnP_cons_eq_if_modifyHead, if_pos (hpq c hpc), hq]
    | false =>
      have hp : (c :: s).splitOnP p = (c :: piece) :: more := by
        rw [List.splitOnP_cons_eq_if_modifyHead, if_neg (Bool.eq_false_iff.1 hpc), hp,
          List.modifyHead_cons]
      refine ⟨c :: piece, more, ?_⟩
      cases hqc : q c with
      | true =>
        refine ⟨[], piece' :: more', hp, ?_, fun hfree => ?_,
          fun l hl hfree => List.mem_cons_of_mem _ (hmore l hl hfree)⟩
        · rw [List.splitOnP_cons_eq_if_modifyHead, if_pos hqc, hq]
        · exact absurd (hfree c List.mem_cons_self) (by simp [hqc])
      | false =>
        refine ⟨c :: piece', more', hp, ?_, fun hfree => ?_, hmore⟩
        · rw [List.splitOnP_cons_eq_if_modifyHead, if_neg (Bool.eq_false_iff.1 hqc), hq,
            List.modifyHead_cons]
        · rw [hfirst fun d hd => hfree d (List.mem_cons_of_mem c hd)]

/-- More separators cut pieces in smaller ones, except for those that have none of them. -/
lemma mem_splitOnP_of_le (hpq : ∀ c, p c = true → q c = true) {s l : List Char}
    (hl : l ∈ s.splitOnP p) (hq : ∀ c ∈ l, q c = false) : l ∈ s.splitOnP q := by
  obtain ⟨piece, more, piece', more', hp, hq', hfirst, hmore⟩ := exists_splitOnP_of_le hpq s
  rw [hp] at hl
  rw [hq']
  exact KeptIn.cons hfirst hmore l hl hq

end WorkerHost.Text
