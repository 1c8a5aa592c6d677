import Mathlib.Data.List.DropRight
import Mathlib.Data.List.Forall2
import Mathlib.Data.List.Infix
import WorkerHost.Hooks.Dedent
import WorkerHost.Proofs.Text.Lines

/-!
# Texts without their indentation

`Dedents code result` says what a text is without its indentation, and without blank lines at its
ends, by its lines alone: the lines from the first to the last that is not blank lose the longest
beginning that the indentations of those that are not blank have in common.

* `longestPrefix_sharedIndent`: a fold over the lines finds that beginning;
* `dedents_iff`: dedenting does what `Dedents` says, and nothing else is possible;
* `dedent_dedented`: so the result has no indentation left, does not depend on how far the text was
  indented as a whole, and is its own result.
-/

namespace WorkerHost

open Text

/-! ## Common beginnings -/

lemma commonStart_prefix_left (a b : List Char) : commonStart a b <+: a := by
  induction a generalizing b with
  | nil => exact List.prefix_rfl
  | cons c a ih =>
    cases b with
    | nil => exact List.nil_prefix
    | cons d b =>
      rw [commonStart]
      split
      · exact (List.prefix_cons_inj c).2 (ih b)
      · exact List.nil_prefix

lemma commonStart_comm (a b : List Char) : commonStart a b = commonStart b a := by
  induction a generalizing b with
  | nil => cases b <;> rfl
  | cons c a ih =>
    cases b with
    | nil => rfl
    | cons d b =>
      rw [commonStart, commonStart]
      by_cases h : c = d
      · rw [if_pos h, if_pos h.symm, ih, h]
      · rw [if_neg h, if_neg (Ne.symm h)]

/-- A common beginning of two texts is one of what they have in common. -/
lemma prefix_commonStart {q a b : List Char} (ha : q <+: a) (hb : q <+: b) :
    q <+: commonStart a b := by
  induction q generalizing a b with
  | nil => exact List.nil_prefix
  | cons c q ih =>
    obtain ⟨a, rfl⟩ := ha
    obtain ⟨b, rfl⟩ := hb
    rw [List.cons_append, List.cons_append, commonStart, if_pos rfl]
    exact (List.prefix_cons_inj c).2 (ih (List.prefix_append q a) (List.prefix_append q b))

/-- The longest text that all of these texts begin with. -/
structure LongestPrefix (p : List Char) (ts : List (List Char)) : Prop where
  shared : ∀ t ∈ ts, p <+: t
  longest : ∀ q, (∀ t ∈ ts, q <+: t) → q <+: p

namespace LongestPrefix
variable {p q : List Char} {ts : List (List Char)}

lemma unique (h : LongestPrefix p ts) (h' : LongestPrefix q ts) : p = q :=
  (h'.longest p h.shared).eq_of_length_le (h.longest q h'.shared).length_le

/-- What all texts begin with they begin with after something more in front. -/
lemma append (h : LongestPrefix p ts) (hne : ts ≠ []) (w : List Char) :
    LongestPrefix (w ++ p) (ts.map (w ++ ·)) := by
  refine ⟨?_, fun q hq => ?_⟩
  · intro t ht
    obtain ⟨t, hmem, rfl⟩ := List.mem_map.1 ht
    exact (List.prefix_append_right_inj w).2 (h.shared t hmem)
  -- what is shared ends within what is in front, or goes on behind it
  · obtain ⟨t, ht⟩ := List.exists_mem_of_ne_nil ts hne
    have hfront := hq _ (List.mem_map_of_mem ht)
    rcases List.prefix_or_prefix_of_prefix hfront (List.prefix_append w t) with hw | ⟨q, rfl⟩
    · exact hw.trans (List.prefix_append w p)
    · refine (List.prefix_append_right_inj w).2 (h.longest q fun t ht => ?_)
      exact (List.prefix_append_right_inj w).1 (hq _ (List.mem_map_of_mem ht))

end LongestPrefix

lemma longestPrefix_foldl (first : List Char) (rest : List (List Char)) :
    LongestPrefix (rest.foldl commonStart first) (first :: rest) := by
  -- the texts so far count as one, which is what they have in common
  induction rest generalizing first with
  | nil =>
    refine ⟨fun t ht => ?_, fun q hq => hq first List.mem_cons_self⟩
    rw [List.mem_singleton.1 ht]
    exact List.prefix_rfl
  | cons t rest ih =>
    rw [List.foldl_cons]
    have hstart := (ih (commonStart first t)).shared _ List.mem_cons_self
    refine ⟨?_, fun q hq => (ih _).longest q ?_⟩
    · rintro u (_ | ⟨_, _ | ⟨_, hu⟩⟩)
      · exact hstart.trans (commonStart_prefix_left first t)
      · rw [commonStart_comm] at hstart ⊢
        exact hstart.trans (commonStart_prefix_left t first)
      · exact (ih _).shared u (List.mem_cons_of_mem _ hu)
    · rintro u (_ | ⟨_, hu⟩)
      · exact prefix_commonStart (hq _ List.mem_cons_self)
          (hq _ (List.mem_cons_of_mem _ List.mem_cons_self))
      · exact hq u (List.mem_cons_of_mem _ (List.mem_cons_of_mem _ hu))

/-! ## Indentations -/

/-- The indentations of the lines that are not blank. -/
def indents (ls : List (List Char)) : List (List Char) :=
  (ls.filter (!allBlank ·)).map indent

section
variable {l p : List Char} {ls : List (List Char)}

lemma mem_indents (hl : l ∈ ls) (hblank : allBlank l = false) : indent l ∈ indents ls :=
  List.mem_map_of_mem (List.mem_filter.2 ⟨hl, by simp [hblank]⟩)

lemma indents_ne_nil (hl : l ∈ ls) (hblank : allBlank l = false) : indents ls ≠ [] :=
  List.ne_nil_of_mem (mem_indents hl hblank)

/-- The indentation that lines share is the longest beginning that their indentations have in
common. -/
lemma longestPrefix_sharedIndent (hl : l ∈ ls) (hblank : allBlank l = false) :
    LongestPrefix (sharedIndent ls) (indents ls) := by
  have hne := indents_ne_nil hl hblank
  unfold sharedIndent
  unfold indents at *
  split
  · exact absurd ‹_› hne
  · rename_i first rest heq
    rw [heq]
    exact longestPrefix_foldl first rest

lemma indent_isPrefix (l : List Char) : indent l <+: l := List.takeWhile_prefix _

lemma allBlank_indent (l : List Char) : allBlank (indent l) = true := by
  rw [allBlank, List.all_eq_true]
  exact fun c hc => List.mem_takeWhile_imp hc

lemma allBlank_of_prefix {q : List Char} (h : q <+: l) (hl : allBlank l = true) :
    allBlank q = true := by
  rw [allBlank, List.all_eq_true] at *
  exact fun c hc => hl c (h.subset hc)

/-- Blanks in front belong to the indentation. -/
lemma indent_append (hp : allBlank p = true) (l : List Char) : indent (p ++ l) = p ++ indent l :=
  List.takeWhile_append_of_pos (List.all_eq_true.1 hp)

lemma allBlank_append (p l : List Char) : allBlank (p ++ l) = (allBlank p && allBlank l) :=
  List.all_append

/-- A line without some of its indentation. -/
structure Stripped (p l r : List Char) : Prop where
  /-- a blank one becomes empty -/
  blank : allBlank l = true → r = []
  /-- and of another one the rest is left -/
  rest : allBlank l = false → l = p ++ r

/-- What is left of a line that is not blank is not blank. -/
lemma Stripped.allBlank_eq {r : List Char} (h : Stripped p l r) (hp : allBlank p = true) :
    allBlank r = allBlank l := by
  cases hl : allBlank l with
  | true =>
    rw [h.blank hl]
    rfl
  | false => rw [← hl, h.rest hl, allBlank_append, hp, Bool.true_and]

lemma stripped_unindent (h : allBlank l = false → p <+: indent l) :
    Stripped p l (unindent p l) := by
  refine ⟨fun hl => ?_, fun hl => ?_⟩
  · rw [unindent, if_pos hl]
  · have hfront : p <+: l := (h hl).trans (indent_isPrefix l)
    rw [unindent, if_neg (by simp [hl]), if_pos (List.isPrefixOf_iff_prefix.2 hfront)]
    exact (List.prefix_iff_eq_append.1 hfront).symm

/-- There is one way to strip a line. -/
lemma stripped_rightUnique (p : List Char) : Relator.RightUnique (Stripped p) := by
  intro l r r' h h'
  cases hl : allBlank l with
  | true => rw [h.blank hl, h'.blank hl]
  | false => exact List.append_cancel_left ((h.rest hl).symm.trans (h'.rest hl))

end

/-! ## The lines between blank ones -/

/-- Some lines are those from the first to the last that is not blank. -/
structure IsBody (front body back : List (List Char)) : Prop where
  front : ∀ l ∈ front, allBlank l = true
  back : ∀ l ∈ back, allBlank l = true
  first : ∃ l rest, body = l :: rest ∧ allBlank l = false
  last : ∃ l rest, body = rest ++ [l] ∧ allBlank l = false

lemma trimLines_eq_rdropWhile (ls : List (List Char)) :
    trimLines ls = (ls.dropWhile allBlank).rdropWhile allBlank := rfl

lemma trimLines_of_blank {ls : List (List Char)} (h : ∀ l ∈ ls, allBlank l = true) :
    trimLines ls = [] := by
  rw [trimLines_eq_rdropWhile, List.dropWhile_eq_nil_iff.2 h]
  rfl

/-- Trimming leaves the lines between. -/
lemma IsBody.trimLines_eq {front body back : List (List Char)} (h : IsBody front body back) :
    trimLines (front ++ body ++ back) = body := by
  obtain ⟨l, rest, hfirst, hl⟩ := h.first
  obtain ⟨l', rest', hlast, hl'⟩ := h.last
  have hfront : (front ++ body ++ back).dropWhile allBlank = body ++ back := by
    rw [List.append_assoc, List.dropWhile_append_of_pos h.front, hfirst, List.cons_append,
      List.dropWhile_cons_of_neg (by simp [hl])]
  rw [trimLines, hfront, List.reverse_append, List.dropWhile_append_of_pos
    fun l hmem => h.back l (List.mem_reverse.1 hmem), hlast, List.reverse_append]
  simp [List.dropWhile_cons_of_neg, hl']

/-- Lines are all blank, or trimming leaves those from the first to the last that is not. -/
lemma trimLines_cases (ls : List (List Char)) :
    (∀ l ∈ ls, allBlank l = true) ∧ trimLines ls = [] ∨
      ∃ front back, ls = front ++ trimLines ls ++ back ∧ IsBody front (trimLines ls) back := by
  by_cases hblank : ∀ l ∈ ls, allBlank l = true
  · exact .inl ⟨hblank, trimLines_of_blank hblank⟩
  -- otherwise something is left between the blank lines in front and at the end
  have hsplit : ls = ls.takeWhile allBlank ++ trimLines ls ++
      (ls.dropWhile allBlank).rtakeWhile allBlank := by
    rw [List.append_assoc, trimLines_eq_rdropWhile, List.rdropWhile_append_rtakeWhile,
      List.takeWhile_append_dropWhile]
  have hne : trimLines ls ≠ [] := by
    intro hnil
    refine hblank fun l hl => ?_
    rw [hsplit, hnil, List.append_nil] at hl
    rcases List.mem_append.1 hl with hl | hl
    · exact List.mem_takeWhile_imp hl
    · exact List.mem_rtakeWhile_imp hl
  refine .inr ⟨_, _, hsplit, fun l => List.mem_takeWhile_imp, fun l => List.mem_rtakeWhile_imp,
    ?_, ?_⟩
  · obtain ⟨l, rest, hfirst⟩ := List.exists_cons_of_ne_nil hne
    refine ⟨l, rest, hfirst, ?_⟩
    -- the first line is also the first one after the blank lines in front
    obtain ⟨back, hback⟩ : trimLines ls <+: ls.dropWhile allBlank := List.rdropWhile_prefix _ _
    rw [hfirst, List.cons_append] at hback
    have hhead := List.head?_dropWhile_not allBlank ls
    rw [← hback] at hhead
    simpa using hhead
  · have hlast := List.rdropWhile_last_not allBlank _ hne
    refine ⟨(trimLines ls).getLast hne, _, (List.dropLast_append_getLast hne).symm, ?_⟩
    rw [← Bool.not_eq_true]
    exact hlast

lemma trimLines_subset (ls : List (List Char)) : trimLines ls ⊆ ls := by
  intro l hl
  rw [trimLines_eq_rdropWhile] at hl
  have hmem : l ∈ ls.dropWhile allBlank := (List.rdropWhile_prefix _ _).subset hl
  exact (List.dropWhile_suffix _).subset hmem

/-- The lines without the indentation that they share. -/
def dedentLines (body : List (List Char)) : List (List Char) :=
  body.map (unindent (sharedIndent body))

namespace IsBody
variable {front body back : List (List Char)} (h : IsBody front body back)
include h

lemma longestPrefix : LongestPrefix (sharedIndent body) (indents body) := by
  obtain ⟨l, rest, rfl, hl⟩ := h.first
  exact longestPrefix_sharedIndent List.mem_cons_self hl

lemma allBlank_sharedIndent : allBlank (sharedIndent body) = true := by
  obtain ⟨l, rest, rfl, hl⟩ := h.first
  have hfront := h.longestPrefix.shared _ (mem_indents List.mem_cons_self hl)
  exact allBlank_of_prefix hfront (allBlank_indent l)

lemma stripped {l : List Char} (hl : l ∈ body) :
    Stripped (sharedIndent body) l (unindent (sharedIndent body) l) :=
  stripped_unindent fun hblank => h.longestPrefix.shared _ (mem_indents hl hblank)

lemma allBlank_unindent {l : List Char} (hl : l ∈ body) :
    allBlank (unindent (sharedIndent body) l) = allBlank l :=
  (h.stripped hl).allBlank_eq h.allBlank_sharedIndent

/-- Lines without indentation go from one that is not blank to another one. -/
lemma isBody_dedentLines : IsBody [] (dedentLines body) [] := by
  refine ⟨nofun, nofun, ?_, ?_⟩
  · obtain ⟨l, rest, hfirst, hl⟩ := h.first
    have hmem : l ∈ body := hfirst ▸ List.mem_cons_self
    refine ⟨unindent (sharedIndent body) l, rest.map (unindent (sharedIndent body)), ?_,
      (h.allBlank_unindent hmem).trans hl⟩
    exact congrArg (List.map (unindent (sharedIndent body))) hfirst
  · obtain ⟨l, rest, hlast, hl⟩ := h.last
    have hmem : l ∈ body := hlast ▸ List.mem_append_right _ List.mem_cons_self
    refine ⟨unindent (sharedIndent body) l, rest.map (unindent (sharedIndent body)), ?_,
      (h.allBlank_unindent hmem).trans hl⟩
    exact (congrArg (List.map (unindent (sharedIndent body))) hlast).trans List.map_append

/-- The last line of a body is not empty. -/
lemma getLast?_ne : body.getLast? ≠ some [] := by
  obtain ⟨l, rest, rfl, hl⟩ := h.last
  rw [List.getLast?_concat, ne_eq, Option.some.injEq]
  rintro rfl
  cases hl

end IsBody

/-! ## Dedenting -/

/-- What a text is without its indentation, and without blank lines at its ends. -/
inductive Dedents (code : List Char) : List Char → Prop
  /-- nothing is left of a text without other lines -/
  | blank (hlines : ∀ l ∈ lines code, allBlank l = true) : Dedents code []
  /-- the lines between blank ones lose the longest indentation that they share -/
  | body {front body back rest : List (List Char)} {p : List Char}
      (hlines : lines code = front ++ body ++ back) (hbody : IsBody front body back)
      (hp : LongestPrefix p (indents body)) (hrest : List.Forall₂ (Stripped p) body rest) :
      Dedents code (['\n'].intercalate rest)

lemma toList_dedent (code : String) : (dedent code).toList = dedentChars code.toList :=
  String.toList_ofList

section
variable {code : List Char}

lemma dedents_dedentChars (code : List Char) : Dedents code (dedentChars code) := by
  obtain ⟨hblank, hnil⟩ | ⟨front, back, hlines, hbody⟩ := trimLines_cases (lines code)
  · rw [dedentChars, hnil]
    exact .blank hblank
  · refine .body hlines hbody hbody.longestPrefix ?_
    rw [List.forall₂_map_right_iff, List.forall₂_same]
    exact fun l hl => hbody.stripped hl

lemma Dedents.unique {r r' : List Char} (h : Dedents code r) (h' : Dedents code r') : r = r' := by
  -- a text is blank or has a line that is not, and which lines these are is determined
  have hapart {front body back : List (List Char)} (hlines : lines code = front ++ body ++ back)
      (hbody : IsBody front body back) : ¬∀ l ∈ lines code, allBlank l = true := by
    obtain ⟨l, rest, hfirst, hl⟩ := hbody.first
    intro hblank
    have := hblank l (by simp [hlines, hfirst])
    simp [hl] at this
  cases h with
  | blank hblank =>
    cases h' with
    | blank => rfl
    | body hlines' hbody' => exact absurd hblank (hapart hlines' hbody')
  | body hlines hbody hp hrest =>
    cases h' with
    | blank hblank => exact absurd hblank (hapart hlines hbody)
    | body hlines' hbody' hp' hrest' =>
      have hsame := hbody.trimLines_eq
      rw [← hlines, hlines', hbody'.trimLines_eq] at hsame
      subst hsame
      obtain rfl := hp.unique hp'
      rw [List.right_unique_forall₂' (stripped_rightUnique _) hrest hrest']

/-- Dedenting a text leaves what `Dedents` says, and nothing else. -/
theorem dedents_iff {r : List Char} : Dedents code r ↔ r = dedentChars code :=
  ⟨fun h => h.unique (dedents_dedentChars code), fun h => h ▸ dedents_dedentChars code⟩

end

/-! ## The lines that are left -/

/-- What a text begins with has the beginning of its indentation. -/
lemma indent_mono {l l' : List Char} (h : l' <+: l) : indent l' <+: indent l := by
  obtain ⟨rest, rfl⟩ := h
  unfold indent
  rw [List.takeWhile_append]
  -- all of it is blank, and the indentation goes on, or it ends where that of the beginning does
  split
  · rename_i hlength
    have hall : l'.takeWhile isBlank = l' := (List.takeWhile_prefix _).eq_of_length hlength
    rw [hall]
    exact List.prefix_append _ _
  · exact List.prefix_rfl

namespace IsBody
variable {front body back : List (List Char)} (h : IsBody front body back)
  (hbody : ∀ l ∈ body, '\n' ∉ l)
include h hbody

lemma not_mem_dedentLines : ∀ r ∈ dedentLines body, '\n' ∉ r := by
  intro r hr
  obtain ⟨l, hl, rfl⟩ := List.mem_map.1 hr
  cases hblank : allBlank l with
  | true =>
    rw [(h.stripped hl).blank hblank]
    exact List.not_mem_nil
  | false =>
    refine fun hmem => hbody l hl ?_
    rw [(h.stripped hl).rest hblank]
    exact List.mem_append_right _ hmem

/-- No indentation is left that the lines share. -/
lemma longestPrefix_dedentLines :
    LongestPrefix [] (indents (lines (['\n'].intercalate (dedentLines body)))) := by
  refine ⟨fun _ _ => List.nil_prefix, fun q hq => ?_⟩
  -- all lines had it behind what was taken off, so that was not the longest indentation
  have hlonger : sharedIndent body ++ q <+: sharedIndent body := by
    refine h.longestPrefix.longest _ fun t ht => ?_
    obtain ⟨l, hl, rfl⟩ := List.mem_map.1 ht
    obtain ⟨hl, hblank⟩ := List.mem_filter.1 hl
    have hblank : allBlank l = false := by simpa using hblank
    have hsplit := (h.stripped hl).rest hblank
    obtain ⟨l', hl', hfront, hsame⟩ := exists_line_of_mem (h.not_mem_dedentLines hbody)
      h.isBody_dedentLines.getLast?_ne (List.mem_map_of_mem hl)
    have hmem := mem_indents hl' (hsame.trans ((h.allBlank_unindent hl).trans hblank))
    rw [hsplit, indent_append h.allBlank_sharedIndent]
    exact (List.prefix_append_right_inj _).2 ((hq _ hmem).trans (indent_mono hfront))
  have hlength := hlonger.length_le
  rw [List.length_append] at hlength
  have hq : q = [] := List.eq_nil_of_length_eq_zero (by omega)
  exact hq ▸ List.prefix_rfl

omit hbody in
lemma return_dedentLines (hreturn : ∀ l ∈ body, l.getLast? ≠ some '\r') :
    ∀ r ∈ dedentLines body, r.getLast? ≠ some '\r' := by
  intro r hr
  obtain ⟨l, hl, rfl⟩ := List.mem_map.1 hr
  cases hblank : allBlank l with
  | true =>
    rw [(h.stripped hl).blank hblank]
    exact nofun
  | false =>
    intro hlast
    refine hreturn l hl ?_
    rw [(h.stripped hl).rest hblank, List.getLast?_append, hlast]
    rfl

/-- Without carriage returns at the ends of lines, lines without indentation are their own result.
-/
lemma dedents_dedentLines (hreturn : ∀ l ∈ body, l.getLast? ≠ some '\r') :
    Dedents (['\n'].intercalate (dedentLines body)) (['\n'].intercalate (dedentLines body)) := by
  have hlines : lines (['\n'].intercalate (dedentLines body)) = dedentLines body :=
    lines_intercalate_eq (h.not_mem_dedentLines hbody) h.isBody_dedentLines.getLast?_ne
      (h.return_dedentLines hreturn)
  have hp := h.longestPrefix_dedentLines hbody
  rw [hlines] at hp
  have hsplit : lines (['\n'].intercalate (dedentLines body)) = [] ++ dedentLines body ++ [] := by
    rw [hlines, List.nil_append, List.append_nil]
  refine .body hsplit h.isBody_dedentLines hp ?_
  rw [List.forall₂_same]
  intro r hr
  obtain ⟨l, hl, rfl⟩ := List.mem_map.1 hr
  refine ⟨fun hblank => ?_, fun _ => rfl⟩
  rw [h.allBlank_unindent hl] at hblank
  exact (h.stripped hl).blank hblank

end IsBody

/-! ## Texts that are indented as a whole -/

/-- A line with something in front of it, unless it is blank. -/
def indentLine (w l : List Char) : List Char :=
  if allBlank l then l else w ++ l

/-- A text with something in front of every line that is not blank. -/
def indentText (w code : List Char) : List Char :=
  ['\n'].intercalate ((code.splitOn '\n').map (indentLine w))

section
variable {w : List Char} (hw : ∀ c ∈ w, c = ' ' ∨ c = '\t')
include hw

lemma allBlank_of_spaces : allBlank w = true := by
  rw [allBlank, List.all_eq_true]
  intro c hc
  rcases hw c hc with rfl | rfl <;> decide

lemma allBlank_indentLine (l : List Char) : allBlank (indentLine w l) = allBlank l := by
  unfold indentLine
  split
  · rfl
  · rw [allBlank_append, allBlank_of_spaces hw, Bool.true_and]

omit hw in
lemma dropReturn_indentLine (l : List Char) :
    dropReturn (indentLine w l) = indentLine w (dropReturn l) := by
  unfold indentLine
  rw [allBlank_dropReturn]
  split
  · rfl
  · rename_i hblank
    rcases dropReturn_cases l with ⟨front, rfl, heq⟩ | ⟨hlast, heq⟩
    · rw [heq, ← List.append_assoc, dropReturn_concat]
    · have hne : l ≠ [] := by
        rintro rfl
        exact hblank rfl
      rw [heq, dropReturn_eq_self]
      rwa [List.getLast?_append_of_ne_nil _ hne]

lemma lines_indentText (code : List Char) :
    lines (indentText w code) = (lines code).map (indentLine w) := by
  refine lines_intercalate_map (fun l hl => ?_) dropReturn_indentLine (fun l => ?_) code
  · have hnewline : '\n' ∉ w := fun hmem => by
      rcases hw _ hmem with h | h <;> cases h
    unfold indentLine
    split
    · exact hl
    · exact fun hmem => (List.mem_append.1 hmem).elim hnewline hl
  · unfold indentLine
    split
    · rfl
    · rename_i hblank
      have hne : l ≠ [] := by
        rintro rfl
        exact hblank rfl
      simp [hne]

lemma indents_map_indentLine (ls : List (List Char)) :
    indents (ls.map (indentLine w)) = (indents ls).map (w ++ ·) := by
  have hkept : (fun l => !allBlank l) ∘ indentLine w = fun l => !allBlank l := by
    funext l
    simp [allBlank_indentLine hw]
  rw [indents, indents, List.filter_map, hkept, List.map_map, List.map_map]
  refine List.map_congr_left fun l hl => ?_
  have hblank : allBlank l = false := by simpa using (List.mem_filter.1 hl).2
  rw [Function.comp_apply, Function.comp_apply, indentLine, if_neg (by simp [hblank]),
    indent_append (allBlank_of_spaces hw)]

lemma IsBody.map_indentLine {front body back : List (List Char)} (h : IsBody front body back) :
    IsBody (front.map (indentLine w)) (body.map (indentLine w)) (back.map (indentLine w)) := by
  refine ⟨?_, ?_, ?_, ?_⟩
  · simpa [allBlank_indentLine hw] using h.front
  · simpa [allBlank_indentLine hw] using h.back
  · obtain ⟨l, rest, rfl, hl⟩ := h.first
    exact ⟨_, _, List.map_cons, (allBlank_indentLine hw l).trans hl⟩
  · obtain ⟨l, rest, rfl, hl⟩ := h.last
    exact ⟨_, _, List.map_append, (allBlank_indentLine hw l).trans hl⟩

/-- What all lines have in front of them goes with their indentation. -/
lemma Dedents.indentText {code r : List Char} (h : Dedents code r) :
    Dedents (indentText w code) r := by
  cases h with
  | blank hlines =>
    refine .blank ?_
    simpa [lines_indentText hw, allBlank_indentLine hw] using hlines
  | @body front body back rest p hlines hbody hp hrest =>
    have hne : indents body ≠ [] := by
      obtain ⟨l, more, rfl, hl⟩ := hbody.first
      exact indents_ne_nil List.mem_cons_self hl
    have hp' : LongestPrefix (w ++ p) (indents (body.map (indentLine w))) := by
      rw [indents_map_indentLine hw]
      exact hp.append hne w
    -- the same lines are blank, and each of the others has lost as much more as it was given
    refine .body ?_ (hbody.map_indentLine hw) hp' ?_
    · rw [lines_indentText hw, hlines, List.map_append, List.map_append]
    · rw [List.forall₂_map_left_iff]
      refine hrest.imp fun l r hstripped => ⟨fun hblank => ?_, fun hblank => ?_⟩
      · exact hstripped.blank ((allBlank_indentLine hw l).symm.trans hblank)
      · rw [allBlank_indentLine hw] at hblank
        rw [indentLine, if_neg (by simp [hblank]), List.append_assoc, ← hstripped.rest hblank]

end

/-! ## Results -/

/-- What can be said of a text and of what dedenting leaves of it. -/
structure Dedented (code result : String) : Prop where
  /-- it is what the lines of the text say, and nothing else is -/
  described : ∀ r : String, Dedents code.toList r.toList ↔ r = result
  /-- its lines have no indentation in common -/
  flush : result ≠ "" → LongestPrefix [] (indents (lines result.toList))
  /-- it does not change if the text is indented as a whole -/
  indented : ∀ w, (∀ c ∈ w, c = ' ' ∨ c = '\t') →
    dedent (String.ofList (indentText w code.toList)) = result
  /-- if no line ends in a carriage return, there is nothing left to dedent -/
  again : (∀ l ∈ lines code.toList, l.getLast? ≠ some '\r') → dedent result = result

/-- Dedenting a text takes away the longest indentation of its lines and the blank lines at its
ends. -/
theorem dedent_dedented (code : String) : Dedented code (dedent code) := by
  have hresult := toList_dedent code
  have hdedent {c : List Char} {r : String} (h : Dedents c r.toList) :
      dedent (String.ofList c) = r := by
    rw [dedent, String.toList_ofList, ← dedents_iff.1 h, String.ofList_toList]
  have hcode := dedents_dedentChars code.toList
  rw [← hresult] at hcode
  refine ⟨fun r => ?_, fun hne => ?_, fun w hw => hdedent (hcode.indentText hw), fun hreturn => ?_⟩
  · rw [dedents_iff, ← hresult, String.toList_inj]
  · obtain ⟨-, hnil⟩ | ⟨front, back, -, hbody⟩ := trimLines_cases (lines code.toList)
    · refine absurd (String.toList_eq_nil_iff.1 (hresult.trans ?_)) hne
      rw [dedentChars, hnil]
      rfl
    · rw [hresult]
      exact hbody.longestPrefix_dedentLines fun l hl =>
        not_mem_of_mem_lines (trimLines_subset _ hl)
  · suffices h : Dedents (dedent code).toList (dedent code).toList by
      simpa using hdedent h
    obtain ⟨-, hnil⟩ | ⟨front, back, -, hbody⟩ := trimLines_cases (lines code.toList)
    · rw [hresult, dedentChars, hnil]
      exact .blank nofun
    · rw [hresult]
      exact hbody.dedents_dedentLines (fun l hl => not_mem_of_mem_lines (trimLines_subset _ hl))
        fun l hl => hreturn l (trimLines_subset _ hl)

example : dedent "\n    if x:\n\t\n      y\n    z\n  " = "if x:\n\n  y\nz" := by decide +kernel

end WorkerHost
