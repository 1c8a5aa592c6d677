import WorkerHost.Proofs.Hooks.Dedent
import WorkerHost.Proofs.Shell.Numbering

/-!
# Composed scripts

Composed code has the lines of its fragments, one fragment after the other, without their
indentation and without blank lines at the ends of fragments, `lines_compose`. None of what is left
out matters to a shell, so it has the commands of the fragments, and runs as they do:
`Shell.compose_sameMeaning`.
-/

namespace WorkerHost

open Text

/-! ## Texts put together of texts -/

namespace Text
variable {sep : List Char}

lemma intercalate_append {ls ls' : List (List Char)} (hne : ls ≠ []) (hne' : ls' ≠ []) :
    sep.intercalate (ls ++ ls') = sep.intercalate ls ++ sep ++ sep.intercalate ls' := by
  induction ls with
  | nil => exact absurd rfl hne
  | cons l rest ih =>
    cases rest with
    | nil => rw [List.singleton_append, List.intercalate_cons_of_ne_nil hne',
        List.intercalate_singleton]
    | cons l₁ rest =>
      have ih := ih (List.cons_ne_nil _ _)
      rw [List.cons_append] at ih
      rw [List.cons_append, List.cons_append, List.intercalate_cons_cons, ih,
        List.intercalate_cons_cons]
      simp only [List.append_assoc]

/-- Texts that are put together of lines make one text of all lines. -/
lemma intercalate_map_intercalate {lss : List (List (List Char))} (hne : ∀ ls ∈ lss, ls ≠ []) :
    sep.intercalate (lss.map sep.intercalate) = sep.intercalate lss.flatten := by
  induction lss with
  | nil => rfl
  | cons ls rest ih =>
    obtain ⟨hls, hrest⟩ := List.forall_mem_cons.1 hne
    cases rest with
    | nil => simp
    | cons ls' rest =>
      have hflatten : (ls' :: rest).flatten ≠ [] := by
        rw [List.flatten_cons]
        exact List.append_ne_nil_of_left_ne_nil (hrest ls' List.mem_cons_self) _
      rw [List.flatten_cons, intercalate_append hls hflatten, ← ih hrest, List.map_cons,
        List.intercalate_cons_of_ne_nil (by simp)]

/-- What is last in none of the parts is not last in the whole. -/
lemma getLast?_flatMap_ne {α β : Type} {f : α → List β} {b : β}
    (hf : ∀ a, (f a).getLast? ≠ some b) (l : List α) : (l.flatMap f).getLast? ≠ some b := by
  induction l with
  | nil => exact nofun
  | cons a rest ih =>
    rw [List.flatMap_cons, List.getLast?_append]
    cases hrest : (rest.flatMap f).getLast? with
    | none =>
      rw [Option.none_or]
      exact hf a
    | some b' => rwa [hrest] at ih

end Text

/-! ## The lines of composed code -/

/-- The lines of a text without their indentation and without blank lines at the ends. -/
def dedentedLines (code : List Char) : List (List Char) :=
  dedentLines (trimLines (lines code))

lemma dedentedLines_cases (code : List Char) : dedentedLines code = [] ∨
    ∃ front back, IsBody front (trimLines (lines code)) back := by
  obtain ⟨-, hnil⟩ | ⟨front, back, -, hbody⟩ := trimLines_cases (lines code)
  · refine .inl ?_
    rw [dedentedLines, hnil]
    rfl
  · exact .inr ⟨front, back, hbody⟩

lemma not_mem_dedentedLines {code r : List Char} (hr : r ∈ dedentedLines code) : '\n' ∉ r := by
  obtain hnil | ⟨front, back, hbody⟩ := dedentedLines_cases code
  · rw [hnil] at hr
    cases hr
  · exact hbody.not_mem_dedentLines
      (fun l hl => not_mem_of_mem_lines (trimLines_subset _ hl)) r hr

lemma return_dedentedLines {code r : List Char} (h : ∀ l ∈ lines code, l.getLast? ≠ some '\r')
    (hr : r ∈ dedentedLines code) : r.getLast? ≠ some '\r' := by
  obtain hnil | ⟨front, back, hbody⟩ := dedentedLines_cases code
  · rw [hnil] at hr
    cases hr
  · exact hbody.return_dedentLines (fun l hl => h l (trimLines_subset _ hl)) r hr

/-- The last of these lines is not empty. -/
lemma getLast?_dedentedLines_ne (code : List Char) : (dedentedLines code).getLast? ≠ some [] := by
  obtain hnil | ⟨front, back, hbody⟩ := dedentedLines_cases code
  · rw [hnil]
    exact nofun
  · exact hbody.isBody_dedentLines.getLast?_ne

/-- A text that is left out of composed code has no lines left. -/
lemma dedentChars_eq_nil_iff {code : List Char} :
    dedentChars code = [] ↔ dedentedLines code = [] := by
  show ['\n'].intercalate (dedentedLines code) = [] ↔ _
  obtain hnil | ⟨front, back, hbody⟩ := dedentedLines_cases code
  · rw [hnil]
    exact iff_of_true rfl rfl
  · obtain ⟨l, rest, hlast, hl⟩ := hbody.isBody_dedentLines.last
    have hne : l ≠ [] := by
      rintro rfl
      cases hl
    rw [dedentedLines, hlast]
    refine iff_of_false (fun hnil => hne ?_) (by simp)
    -- the last line of the text would be empty
    rw [← List.getLast?_eq_none_iff, ← getLast?_intercalate_concat rest hne, hnil,
      List.getLast?_nil]

variable {fragments : List String}

lemma toList_compose (fragments : List String) :
    (compose fragments).toList =
      ['\n'].intercalate (fragments.flatMap (dedentedLines ·.toList)) := by
  -- the texts that are left out are those without lines, and they add none
  have hkept : (fun f => f != "") ∘ dedent =
      (fun ls => !ls.isEmpty) ∘ (dedentedLines ·.toList) := by
    funext f
    have hempty : dedent f = "" ↔ dedentedLines f.toList = [] := by
      rw [← String.toList_eq_nil_iff, toList_dedent, dedentChars_eq_nil_iff]
    rw [Bool.eq_iff_iff]
    simp [hempty]
  have htexts : ((fragments.map dedent).filter (· != "")).map String.toList =
      ((fragments.map (dedentedLines ·.toList)).filter (!·.isEmpty)).map
        ['\n'].intercalate := by
    rw [List.filter_map, List.filter_map, hkept, List.map_map, List.map_map]
    refine List.map_congr_left fun f _ => ?_
    rw [Function.comp_apply, Function.comp_apply, toList_dedent]
    rfl
  have hnewline : "\n".toList = ['\n'] := rfl
  rw [compose, String.toList_intercalate, htexts, hnewline, intercalate_map_intercalate]
  · rw [List.flatten_filter_not_isEmpty, List.flatMap]
  · simp

/-- The lines of composed code, if no line of a fragment ends in a carriage return. -/
lemma lines_compose (h : ∀ f ∈ fragments, ∀ l ∈ lines f.toList, l.getLast? ≠ some '\r') :
    lines (compose fragments).toList = fragments.flatMap (dedentedLines ·.toList) := by
  rw [toList_compose]
  refine lines_intercalate_eq ?_ ?_ ?_
  · intro r hr
    obtain ⟨f, -, hr⟩ := List.mem_flatMap.1 hr
    exact not_mem_dedentedLines hr
  · refine getLast?_flatMap_ne (fun f => ?_) fragments
    exact getLast?_dedentedLines_ne f.toList
  · intro r hr
    obtain ⟨f, hf, hr⟩ := List.mem_flatMap.1 hr
    exact return_dedentedLines (h f hf) hr

/-! ## Its commands -/

namespace Shell

lemma command?_congr {l r : List Char} (h : trimStart r = trimStart l) :
    command? r = command? l := by
  rw [command?, command?, h]

lemma command?_of_allBlank {l : List Char} (h : allBlank l = true) : command? l = none := by
  rw [command?, trimStart, List.dropWhile_eq_nil_iff.2 (List.all_eq_true.1 h)]
  rfl

/-- An indentation does not change the command of a line. -/
lemma command?_of_stripped {p l r : List Char} (hp : allBlank p = true) (h : Stripped p l r) :
    command? r = command? l := by
  cases hblank : allBlank l with
  | true =>
    rw [h.blank hblank, command?_of_allBlank hblank]
    rfl
  | false =>
    refine command?_congr ?_
    rw [h.rest hblank, trimStart, trimStart,
      List.dropWhile_append_of_pos (List.all_eq_true.1 hp)]

lemma filterMap_of_allBlank {ls : List (List Char)} (h : ∀ l ∈ ls, allBlank l = true) :
    ls.filterMap command? = [] :=
  List.filterMap_eq_nil_iff.2 fun l hl => command?_of_allBlank (h l hl)

/-- A text without its indentation has the same commands. -/
lemma filterMap_dedentedLines (code : List Char) :
    (dedentedLines code).filterMap command? = (lines code).filterMap command? := by
  obtain ⟨hblank, hnil⟩ | ⟨front, back, hlines, hbody⟩ := trimLines_cases (lines code)
  · rw [dedentedLines, hnil, filterMap_of_allBlank hblank]
    rfl
  · have hkept : (dedentedLines code).filterMap command? =
        (trimLines (lines code)).filterMap command? := by
      rw [dedentedLines, dedentLines, List.filterMap_map]
      exact List.filterMap_congr fun l hl =>
        command?_of_stripped hbody.allBlank_sharedIndent (hbody.stripped hl)
    rw [hkept]
    conv_rhs => rw [hlines, List.filterMap_append, List.filterMap_append,
      filterMap_of_allBlank hbody.front, filterMap_of_allBlank hbody.back]
    simp

/-! ## Its runs -/

/-- A script means what the lines of fragments mean, one fragment after the other. -/
structure SameMeaning (fragments : List String) (code : String) : Prop where
  /-- it has their commands in their order -/
  commands : (lines code.toList).filterMap command? =
    (fragments.flatMap (lines ·.toList)).filterMap command?
  /-- on every console, from every shell, it does what they do, and ends as they do -/
  runs : ∀ {m : Type → Type} [Monad m] [LawfulMonad m] (c : Console m) (s : Shell),
    Coupled SameEnd (run c code s) (runLines c (fragments.flatMap (lines ·.toList)) s)
  /-- it can say and hear what they can: a conversation with a console has the same questions and
  answers and ends in the same shell -/
  conversations : ∀ {s s' : Shell} {es : List ConsoleExchange} {r : Except InterpreterError Value},
    s.Converses code es r s' → ∃ r', Task.Exchanges
      (runLines Console.asking (fragments.flatMap (lines ·.toList)) s) es (r', s') ∧
      SameEnd (r, s') (r', s')
  /-- and they can say and hear what it can -/
  conversely : ∀ {s s' : Shell} {es : List ConsoleExchange}
    {r : Except InterpreterError Value}, Task.Exchanges
      (runLines Console.asking (fragments.flatMap (lines ·.toList)) s) es (r, s') →
    ∃ r', s.Converses code es r' s' ∧ SameEnd (r', s') (r, s')

/-- Composed code means what its fragments mean, if no line of a fragment ends in a carriage
return. -/
theorem compose_sameMeaning (h : ∀ f ∈ fragments, ∀ l ∈ lines f.toList, l.getLast? ≠ some '\r') :
    SameMeaning fragments (compose fragments) := by
  have hcommands : (lines (compose fragments).toList).filterMap command? =
      (fragments.flatMap (lines ·.toList)).filterMap command? := by
    rw [lines_compose h, List.filterMap_flatMap, List.filterMap_flatMap]
    exact List.flatMap_congr fun f _ => filterMap_dedentedLines f.toList
  refine ⟨hcommands, coupled_runLines hcommands, fun hconverses => ?_, fun hexchanges => ?_⟩
  -- a conversation is a course of the one computation that both runs are
  · obtain ⟨⟨r', s''⟩, hexchanges, hsame⟩ :=
      (coupled_runLines hcommands _ _).exchanges hconverses
    obtain rfl := hsame.shell_eq
    exact ⟨r', hexchanges, hsame⟩
  · obtain ⟨⟨r', s''⟩, hconverses, hsame⟩ :=
      (coupled_runLines hcommands.symm _ _).exchanges hexchanges
    obtain rfl := hsame.shell_eq
    exact ⟨r', hconverses, hsame.symm⟩

/-- Two indented fragments, the second of which ends in a syntax error. -/
theorem compose_sameMeaning_indented :
    (∀ f ∈ ["\n  set x 1\n\n  print $x\n", "\t# twice\n\tjump"], ∀ l ∈ lines f.toList,
      l.getLast? ≠ some '\r') ∧
    SameMeaning ["\n  set x 1\n\n  print $x\n", "\t# twice\n\tjump"]
      (compose ["\n  set x 1\n\n  print $x\n", "\t# twice\n\tjump"]) :=
  ⟨by decide +kernel, compose_sameMeaning (by decide +kernel)⟩

example : compose ["\n  set x 1\n\n  print $x\n", " \n", "\t# twice\n\tjump"] =
    "set x 1\n\nprint $x\n# twice\njump" := by
  decide +kernel

end Shell
end WorkerHost
