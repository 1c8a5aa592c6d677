import Mathlib.Data.List.Infix
import WorkerHost.Text.Lines
import WorkerHost.Text.Words

/-!
# Lines of a text that is put together

A text of pieces between newlines has these pieces for its lines, but for the carriage returns that
come to stand before a newline, `lines_intercalate`. What is done to every piece is done to every
line, `lines_intercalate_map`.
-/

namespace WorkerHost.Text

section
variable {l : List Char}

/-! ## The end of a line -/

/-- A line loses the carriage return at its end, if it has one. -/
lemma dropReturn_cases (l : List Char) : (∃ front, l = front ++ ['\r'] ∧ dropReturn l = front) ∨
    l.getLast? ≠ some '\r' ∧ dropReturn l = l := by
  rcases List.eq_nil_or_concat' l with rfl | ⟨front, c, rfl⟩
  · exact .inr ⟨nofun, rfl⟩
  · unfold dropReturn
    by_cases hc : c = '\r'
    · subst hc
      exact .inl ⟨front, rfl, by simp⟩
    · refine .inr ⟨by simpa using hc, ?_⟩
      split
      · rename_i heq
        exact absurd (by simpa using heq) hc
      · rfl

lemma dropReturn_eq_self (h : l.getLast? ≠ some '\r') : dropReturn l = l := by
  rcases dropReturn_cases l with ⟨front, rfl, -⟩ | ⟨-, heq⟩
  · exact absurd List.getLast?_concat h
  · exact heq

@[simp] lemma dropReturn_concat (front : List Char) : dropReturn (front ++ ['\r']) = front := by
  simp [dropReturn]

lemma dropReturn_isPrefix (l : List Char) : dropReturn l <+: l := by
  rcases dropReturn_cases l with ⟨front, rfl, heq⟩ | ⟨-, heq⟩
  · rw [heq]
    exact List.prefix_append front _
  · rw [heq]

/-- A carriage return is blank. -/
@[simp] lemma allBlank_dropReturn (l : List Char) : allBlank (dropReturn l) = allBlank l := by
  rcases dropReturn_cases l with ⟨front, rfl, heq⟩ | ⟨-, heq⟩
  · have hreturn : isBlank '\r' = true := by decide
    rw [heq, allBlank, allBlank, List.all_append]
    simp [hreturn]
  · rw [heq]

end

/-! ## Pieces -/

lemma not_mem_of_mem_splitOn {s l : List Char} (h : l ∈ s.splitOn '\n') : '\n' ∉ l := by
  induction s generalizing l with
  | nil =>
    rw [List.splitOn_nil, List.mem_singleton] at h
    rw [h]
    exact List.not_mem_nil
  | cons c rest ih =>
    rw [List.splitOn_cons_eq_if_modifyHead] at h
    split at h
    · rcases List.mem_cons.1 h with rfl | h
      · exact List.not_mem_nil
      · exact ih h
    · rename_i hc
      obtain ⟨line, more, hrest⟩ := List.exists_cons_of_ne_nil (List.splitOn_ne_nil '\n' rest)
      rw [hrest, List.modifyHead_cons] at h
      rw [hrest] at ih
      rcases List.mem_cons.1 h with rfl | h
      · rw [List.mem_cons, not_or]
        exact ⟨fun heq => hc (beq_iff_eq.2 heq.symm), ih List.mem_cons_self⟩
      · exact ih (List.mem_cons_of_mem line h)

section
variable {ls : List (List Char)}

/-- A text that is put together ends with its last piece. -/
lemma getLast?_intercalate_concat {sep : List Char} (front : List (List Char)) {last : List Char}
    (hlast : last ≠ []) : (sep.intercalate (front ++ [last])).getLast? = last.getLast? := by
  obtain ⟨c, hc⟩ := Option.ne_none_iff_exists'.1 (mt List.getLast?_eq_none_iff.1 hlast)
  induction front with
  | nil => rw [List.nil_append, List.intercalate_singleton]
  | cons l rest ih =>
    rw [List.cons_append, List.intercalate_cons_of_ne_nil (by simp), List.getLast?_append, ih, hc]
    rfl

/-- The lines of a text that is put together. -/
lemma lines_intercalate (hls : ∀ l ∈ ls, '\n' ∉ l) (hlast : ls.getLast? ≠ some []) :
    lines (['\n'].intercalate ls) = ls.dropLast.map dropReturn ++ ls.getLast?.toList := by
  rcases List.eq_nil_or_concat' ls with rfl | ⟨front, last, rfl⟩
  · rfl
  -- the last piece counts as a line because it is not empty
  · have hlast : last ≠ [] := by simpa using hlast
    rw [lines, List.splitOn_intercalate _ hls (by simp)]
    simp [hlast]

/-- What is put together comes back as a line, perhaps without a carriage return. -/
lemma exists_line_of_mem (hls : ∀ l ∈ ls, '\n' ∉ l) (hlast : ls.getLast? ≠ some [])
    {l : List Char} (hl : l ∈ ls) :
    ∃ l' ∈ lines (['\n'].intercalate ls), l' <+: l ∧ allBlank l' = allBlank l := by
  rw [lines_intercalate hls hlast]
  rcases List.eq_nil_or_concat' ls with rfl | ⟨front, last, rfl⟩
  · cases hl
  · rcases List.mem_append.1 hl with hl | hl
    · exact ⟨dropReturn l, by simpa using .inl ⟨l, hl, rfl⟩, dropReturn_isPrefix l, by simp⟩
    · exact ⟨l, by simpa using .inr (List.mem_singleton.1 hl), List.prefix_rfl, rfl⟩

/-- Nothing is lost of lines without carriage returns at their ends. -/
lemma lines_intercalate_eq (hls : ∀ l ∈ ls, '\n' ∉ l) (hlast : ls.getLast? ≠ some [])
    (hreturn : ∀ l ∈ ls, l.getLast? ≠ some '\r') : lines (['\n'].intercalate ls) = ls := by
  rw [lines_intercalate hls hlast]
  rcases List.eq_nil_or_concat' ls with rfl | ⟨front, last, rfl⟩
  · rfl
  · have hfront : front.map dropReturn = front.map id := by
      refine List.map_congr_left fun l hl => ?_
      exact dropReturn_eq_self (hreturn l (List.mem_append_left _ hl))
    simp [hfront]

end

/-- A line is a piece of the text, or a piece without its carriage return. -/
lemma exists_piece_of_mem_lines {s l : List Char} (h : l ∈ lines s) :
    ∃ piece ∈ s.splitOn '\n', l <+: piece := by
  rcases List.mem_append.1 h with h | h
  · obtain ⟨piece, hpiece, rfl⟩ := List.mem_map.1 h
    exact ⟨piece, List.dropLast_subset _ hpiece, dropReturn_isPrefix piece⟩
  · split at h
    · cases h
    · rw [List.mem_singleton.1 h, List.getLast?_eq_getLast_of_ne_nil (List.splitOn_ne_nil '\n' s)]
      exact ⟨_, List.getLast_mem (List.splitOn_ne_nil '\n' s), List.prefix_rfl⟩

lemma not_mem_of_mem_lines {s l : List Char} (h : l ∈ lines s) : '\n' ∉ l := by
  obtain ⟨piece, hpiece, hstart⟩ := exists_piece_of_mem_lines h
  exact fun hmem => not_mem_of_mem_splitOn hpiece (hstart.subset hmem)

/-- What stands before a newline has all its pieces for lines. -/
lemma lines_append_newline (a b : List Char) :
    lines (a ++ '\n' :: b) = (a.splitOn '\n').map dropReturn ++ lines b := by
  have hne := List.splitOn_ne_nil '\n' b
  rw [lines, lines, List.splitOn_append_cons_self, List.dropLast_append_of_ne_nil hne,
    List.map_append, List.getLast?_append_of_ne_nil _ hne, List.append_assoc]

/-- The pieces of a text that does not end in a carriage return are its lines, and the empty one
after a newline at its end. -/
lemma map_dropReturn_splitOn {a : List Char} (h : a.getLast? ≠ some '\r') :
    (a.splitOn '\n').map dropReturn = lines a ∨
      (a.splitOn '\n').map dropReturn = lines a ++ [[]] := by
  rcases List.eq_nil_or_concat' (a.splitOn '\n') with hnil | ⟨front, last, hpieces⟩
  · exact absurd hnil (List.splitOn_ne_nil '\n' a)
  · have hlast : last = [] ∨ dropReturn last = last := by
      by_cases hempty : last = []
      · exact .inl hempty
      · refine .inr (dropReturn_eq_self fun hreturn => h ?_)
        -- the last piece is the end of the text
        have hwhole : ['\n'].intercalate (a.splitOn '\n') = a := List.intercalate_splitOn '\n'
        rw [← hwhole, hpieces, ← hreturn]
        exact getLast?_intercalate_concat front hempty
    rw [lines, hpieces]
    rcases hlast with rfl | hlast
    · exact .inr (by simp [dropReturn])
    · by_cases hempty : last = []
      · exact .inr (by simp [hempty, dropReturn])
      · exact .inl (by simp [hempty, hlast])

/-- What is done to every piece is done to every line, if it leaves the ends of lines alone. -/
lemma lines_intercalate_map {f : List Char → List Char} (hnewline : ∀ l, '\n' ∉ l → '\n' ∉ f l)
    (hreturn : ∀ l, dropReturn (f l) = f (dropReturn l)) (hempty : ∀ l, f l = [] ↔ l = [])
    (s : List Char) : lines (['\n'].intercalate ((s.splitOn '\n').map f)) = (lines s).map f := by
  have hne := List.splitOn_ne_nil '\n' s
  have hpieces : List.splitOn '\n' (['\n'].intercalate ((s.splitOn '\n').map f)) =
      (s.splitOn '\n').map f := by
    refine List.splitOn_intercalate _ (fun l hl => ?_) (by simp)
    obtain ⟨piece, hpiece, rfl⟩ := List.mem_map.1 hl
    exact hnewline piece (not_mem_of_mem_splitOn hpiece)
  rcases List.eq_nil_or_concat' (s.splitOn '\n') with hnil | ⟨front, last, hconcat⟩
  · exact absurd hnil hne
  · rw [lines, lines, hpieces, hconcat]
    -- the last piece is a line before exactly if it is one after
    by_cases hlast : last = []
    · simp [hlast, (hempty []).2 rfl, Function.comp_def, hreturn]
    · simp [hlast, mt (hempty last).1 hlast, Function.comp_def, hreturn]

end WorkerHost.Text
