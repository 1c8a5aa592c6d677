import Mathlib.Data.List.Infix
import WorkerHost.Config.Settings
import WorkerHost.Proofs.Text.Words

/-!
# Where grants lead

Grants and resources are compared as texts, but what they stand for are places: a path goes down by
the names among its segments, and `resolve` is where it leads. A grant is to allow nothing but what
lies below the place where it leads itself, whichever of slashes, colons and backslashes stand
between the names.

* `names_isPrefix_of_covers`: the names of a grant are the first ones of all that it covers;
* `resolve_eq_names`: a path without a parent segment leads where its names say;
* `Settings.permits_below`: both together, for what settings permit.
-/

namespace WorkerHost
namespace Permission

open Text

/-- The segment that leads up. -/
def parent : List Char := ['.', '.']

/-- A character between segments. -/
def separates (c : Char) : Bool :=
  isBoundary c || c == '\\'

/-- Whether a segment leads to a place by its name. -/
def isName (segment : List Char) : Bool :=
  !segment.isEmpty && segment != ['.']

/-- The names among the segments of a path. -/
def names (sep : Char → Bool) (path : List Char) : List (List Char) :=
  (path.splitOnP sep).filter isName

/-- Where one segment leads from a place. -/
def enter (place : List (List Char)) (segment : List Char) : List (List Char) :=
  if segment = parent then place.dropLast
  else if isName segment then place ++ [segment]
  else place

/-- Where segments lead. -/
def resolve (segments : List (List Char)) : List (List Char) :=
  segments.foldl enter []

variable {sep : Char → Bool} {grant path : List Char}

lemma climbs_eq_false : climbs path = false ↔ parent ∉ path.splitOnP separates := by
  have hclimbs : climbs path = (path.splitOnP separates).any (· == parent) := rfl
  rw [hclimbs, List.any_eq_false]
  constructor
  · exact fun h hmem => h parent hmem (beq_self_eq_true parent)
  · rintro h segment hsegment heq
    exact h (eq_of_beq heq ▸ hsegment)

/-! ## Names -/

lemma names_append_cons {c : Char} (hc : sep c = true) (a b : List Char) :
    names sep (a ++ c :: b) = names sep a ++ names sep b := by
  rw [names, List.splitOnP_append_cons _ _ hc, List.filter_append]
  rfl

/-- What is covered begins with the grant, and goes on where a segment is over. -/
lemma covers_cases (h : covers grant path = true) : path = grant ∨
    (∃ c rest, isBoundary c = true ∧ path = grant ++ c :: rest) ∨
    ∃ front c rest, isBoundary c = true ∧ grant = front ++ [c] ∧ path = front ++ c :: rest := by
  unfold covers at h
  obtain ⟨hbegins, hend⟩ := (Bool.and_eq_true _ _).mp h
  obtain ⟨rest, rfl⟩ := List.isPrefixOf_iff_prefix.1 hbegins
  rw [List.drop_left] at hend
  cases rest with
  | nil => exact .inl (List.append_nil grant)
  | cons c rest =>
    rcases (Bool.or_eq_true _ _).mp hend with hlast | hc
    · obtain ⟨front, d, rfl⟩ : ∃ front d, grant = front ++ [d] := by
        rcases List.eq_nil_or_concat' grant with rfl | h
        · cases hlast
        · exact h
      rw [List.getLast?_concat] at hlast
      exact .inr (.inr ⟨front, d, c :: rest, hlast, rfl, by simp⟩)
    · exact .inr (.inl ⟨c, rest, hc, rfl⟩)

section
variable (hsep : ∀ c, isBoundary c = true → sep c = true)
include hsep

/-- What a grant covers lies below it. -/
lemma names_isPrefix_of_covers (h : covers grant path = true) :
    names sep grant <+: names sep path := by
  rcases covers_cases h with rfl | ⟨c, rest, hc, rfl⟩ | ⟨front, c, rest, hc, rfl, rfl⟩
  · exact List.prefix_rfl
  · rw [names_append_cons (hsep c hc)]
    exact List.prefix_append _ _
  · -- behind the separator at its end the grant has an empty segment, which is no name
    have hnone : names sep [] = [] := rfl
    rw [names_append_cons (hsep c hc), names_append_cons (hsep c hc), hnone, List.append_nil]
    exact List.prefix_append _ _

/-- Nor has the grant segments that what it covers does not have, but for an empty one. -/
lemma parent_not_mem_of_covers (h : covers grant path = true)
    (hpath : parent ∉ path.splitOnP sep) : parent ∉ grant.splitOnP sep := by
  rcases covers_cases h with rfl | ⟨c, rest, hc, rfl⟩ | ⟨front, c, rest, hc, rfl, rfl⟩
  · exact hpath
  · rw [List.splitOnP_append_cons _ _ (hsep c hc)] at hpath
    exact fun hmem => hpath (List.mem_append_left _ hmem)
  · rw [List.splitOnP_append_cons _ _ (hsep c hc)] at hpath ⊢
    intro hmem
    rcases List.mem_append.1 hmem with hmem | hmem
    · exact hpath (List.mem_append_left _ hmem)
    · cases List.mem_singleton.1 hmem

end

/-! ## Places -/

/-- Segments that do not lead up lead down by their names. -/
lemma foldl_enter {segments : List (List Char)} (h : parent ∉ segments)
    (place : List (List Char)) : segments.foldl enter place = place ++ segments.filter isName := by
  induction segments generalizing place with
  | nil => simp
  | cons segment rest ih =>
    obtain ⟨hsegment, hrest⟩ := not_or.1 (mt List.mem_cons.2 h)
    rw [List.foldl_cons, ih hrest, enter, if_neg (Ne.symm hsegment)]
    cases hname : isName segment with
    | true => simp [hname]
    | false => simp [hname]

/-- A path without a parent segment leads where its names say. -/
lemma resolve_eq_names (h : parent ∉ path.splitOnP sep) :
    resolve (path.splitOnP sep) = names sep path := by
  rw [resolve, foldl_enter h, List.nil_append]
  rfl

/-- Such a path does not come out of a place again where it has been. -/
lemma resolve_isPrefix_of_append {front back : List (List Char)} (h : parent ∉ front ++ back) :
    resolve front <+: resolve (front ++ back) := by
  have hback : parent ∉ back := fun hmem => h (List.mem_append_right _ hmem)
  rw [resolve, resolve, List.foldl_append, foldl_enter hback]
  exact List.prefix_append _ _

/-- A segment between fewer separators has none of the others in it. -/
lemma parent_not_mem_of_le (hle : ∀ c, sep c = true → separates c = true)
    (h : parent ∉ path.splitOnP separates) : parent ∉ path.splitOnP sep := by
  refine fun hmem => h (mem_splitOnP_of_le hle hmem fun c hc => ?_)
  obtain rfl : c = '.' := by simpa [parent] using hc
  decide

/-- The path stays below the grant: it has the grant's names for its first ones, it leads below the
place where the grant leads, and it comes out of no place again on the way. This is so whether or
not a backslash separates segments. -/
structure Below (grant path : List Char) : Prop where
  names : ∀ sep ∈ [isBoundary, separates], names sep grant <+: names sep path
  resolve : ∀ sep ∈ [isBoundary, separates],
    resolve (grant.splitOnP sep) <+: resolve (path.splitOnP sep)
  descends : ∀ sep ∈ [isBoundary, separates], ∀ front back, path.splitOnP sep = front ++ back →
    Permission.resolve front <+: Permission.resolve (path.splitOnP sep)

/-- What a grant covers stays below it, if it does not climb. -/
lemma below_of_covers (hlevel : parent ∉ path.splitOnP separates)
    (h : covers grant path = true) : Below grant path := by
  have hseps : ∀ sep ∈ [isBoundary, separates], (∀ c, isBoundary c = true → sep c = true) ∧
      ∀ c, sep c = true → separates c = true := by
    have hboundary : ∀ c, isBoundary c = true → separates c = true := fun c hc => by
      simp [separates, hc]
    simpa using hboundary
  refine ⟨fun sep hmem => ?_, fun sep hmem => ?_, fun sep hmem front back heq => ?_⟩
  · exact names_isPrefix_of_covers (hseps sep hmem).1 h
  · obtain ⟨hsep, hle⟩ := hseps sep hmem
    have hpath := parent_not_mem_of_le hle hlevel
    rw [resolve_eq_names hpath, resolve_eq_names (parent_not_mem_of_covers hsep h hpath)]
    exact names_isPrefix_of_covers hsep h
  · have hpath := parent_not_mem_of_le (hseps sep hmem).2 hlevel
    rw [heq] at hpath ⊢
    exact resolve_isPrefix_of_append hpath

/-! ## Grants -/

variable {grants : List String} {resource : String}

lemma allows_eq_true : allows grants resource = true ↔
    parent ∉ resource.toList.splitOnP separates ∧
      ∃ g ∈ grants, g = "*" ∨ covers g.toList resource.toList = true := by
  rw [allows, Bool.and_eq_true, Bool.not_eq_true', climbs_eq_false, List.any_eq_true]
  simp

/-- A text below a covered one is covered. -/
lemma covers_append {b : List Char} (h : covers grant path = true) :
    covers grant (path ++ '/' :: b) = true := by
  have hcovers (c : Char) (rest : List Char)
      (hend : grant.getLast?.any isBoundary = true ∨ isBoundary c = true) :
      covers grant (grant ++ c :: rest) = true := by
    rw [covers, List.drop_left]
    simpa using hend
  rcases covers_cases h with rfl | ⟨c, rest, hc, rfl⟩ | ⟨front, c, rest, hc, rfl, rfl⟩
  · exact hcovers '/' b (.inr (by decide))
  · rw [List.append_assoc]
    exact hcovers c _ (.inr hc)
  · have hsplit : front ++ c :: rest ++ '/' :: b = front ++ [c] ++ (rest ++ '/' :: b) := by simp
    rw [hsplit]
    obtain ⟨d, rest', hd⟩ : ∃ d rest', rest ++ '/' :: b = d :: rest' :=
      List.exists_cons_of_ne_nil (by simp)
    rw [hd]
    exact hcovers d rest' (.inl (by simpa using hc))

end Permission

open Permission Text

/-- What is permitted has no segment that leads up, and a grant for everything or stays below some
other grant. With a resource all that lies below it is permitted, as long as nothing leads up, and
so is a grant itself. With more grants nothing is denied that was permitted. -/
theorem Settings.permits_below (s : Settings) :
    (∀ resource, s.permits resource = true →
      parent ∉ resource.toList.splitOnP separates ∧
      (∃ g ∈ s.permissions, g = "*" ∨ Below g.toList resource.toList) ∧
      ∀ rest : String, parent ∉ rest.toList.splitOnP separates →
        s.permits (resource ++ "/" ++ rest) = true) ∧
    (∀ g ∈ s.permissions, parent ∉ g.toList.splitOnP separates → s.permits g = true) ∧
    ∀ s' : Settings, s.permissions ⊆ s'.permissions → ∀ resource, s.permits resource = true →
      s'.permits resource = true := by
  refine ⟨fun resource h => ?_, fun g hg hlevel => ?_, fun s' hgrants resource h => ?_⟩
  · obtain ⟨hlevel, g, hg, hcovers⟩ := allows_eq_true.1 h
    refine ⟨hlevel, ⟨g, hg, hcovers.imp_right (below_of_covers hlevel)⟩, fun rest hrest => ?_⟩
    have htext : (resource ++ "/" ++ rest).toList = resource.toList ++ '/' :: rest.toList := by
      simp
    refine allows_eq_true.2 ⟨?_, g, hg, ?_⟩
    · rw [htext, List.splitOnP_append_cons _ _ (by decide)]
      exact fun hmem => (List.mem_append.1 hmem).elim hlevel hrest
    · rw [htext]
      exact hcovers.imp_right covers_append
  · refine allows_eq_true.2 ⟨hlevel, g, hg, .inr ?_⟩
    simp [covers]
  · obtain ⟨hlevel, g, hg, hcovers⟩ := allows_eq_true.1 h
    exact allows_eq_true.2 ⟨hlevel, g, hgrants hg, hcovers⟩

/-- Notes below a granted directory. -/
theorem Settings.permits_below_notes :
    let s := { Settings.default with permissions := ["/data"] }
    s.permits "/data/notes" = true ∧ Below "/data".toList "/data/notes".toList ∧
      s.permits ("/data/notes" ++ "/" ++ "old") = true ∧ s.permits "/data/../keys" = false := by
  intro s
  have hnotes : s.permits "/data/notes" = true := by decide
  obtain ⟨-, ⟨g, hg, hbelow⟩, happend⟩ := (Settings.permits_below s).1 "/data/notes" hnotes
  obtain rfl : g = "/data" := List.mem_singleton.1 hg
  exact ⟨hnotes, hbelow.resolve_left (by decide), happend "old" (by decide), by decide⟩

end WorkerHost
