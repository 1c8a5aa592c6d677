import Mathlib.Tactic.Common
import WorkerHost.Hooks.Callback

/-!
# A registry is a map of lists

Seen from outside a registry is a map from scopes and phases to lists of hooks in which no hook
stands twice: `Registry.contents`. `HookMap.Step` says, without tables and sets, what registering
and removing a hook do to such a map and what they answer.

* `HookMap.Step.sound` and `HookMap.Run.origin`: what every change of a map keeps, and where the
  hooks of a map come from;
* `Registry.apply_step`: a change of a registry is a step of its contents;
* `Registry.changes_refine_map`: every sequence of changes of a new registry is one of the map.
-/

namespace WorkerHost

/-! ## The identity of hooks -/

section
variable {C : Type} [BEq C]

/-- Callbacks are the same if they have one identity, and code if it has one text. -/
instance Hook.instBEq : BEq (Hook C) where
  beq
    | .callback a, .callback b => a == b
    | .code s, .code t => s == t
    | _, _ => false

instance Hook.instEquivBEq [EquivBEq C] : EquivBEq (Hook C) where
  symm := by
    rintro (a | s) (b | t) h
    · exact BEq.symm (α := C) h
    · cases h
    · cases h
    · exact BEq.symm (α := String) h
  trans := by
    rintro (a | s) (b | t) (c | u) h h'
    · exact BEq.trans (α := C) h h'
    all_goals first | exact BEq.trans (α := String) h h' | cases h | cases h'
  rfl := by
    rintro (a | s)
    · exact BEq.rfl (α := C)
    · exact BEq.rfl (α := String)

instance Callback.instEquivBEq : EquivBEq Callback where
  symm h := BEq.symm (α := ℕ) h
  trans h h' := BEq.trans (α := ℕ) h h'
  rfl := BEq.rfl (α := ℕ)

end

/-! ## Lists without repetition -/

section
variable {α β : Type} [BEq α] [BEq β]

/-- No element stands twice. -/
def Distinct (l : List α) : Prop := l.Pairwise fun a b => (a == b) = false

lemma Distinct.concat {l : List α} {a : α} (h : Distinct l) (hnew : ∀ b ∈ l, (b == a) = false) :
    Distinct (l ++ [a]) := by
  refine List.pairwise_append.2 ⟨h, List.pairwise_singleton _ a, fun b hb c hc => ?_⟩
  rw [List.mem_singleton.1 hc]
  exact hnew b hb

/-- What is left without an element is all before it and all after it. -/
lemma Distinct.filter_split [EquivBEq α] {before after : List α} {a b : α}
    (h : Distinct (before ++ b :: after)) (hb : (b == a) = true) :
    ((before ++ b :: after).filter fun c => !(c == a)) = before ++ after := by
  obtain ⟨-, hafter, hbefore⟩ := List.pairwise_append.1 h
  have hkept : ∀ c, (c == b) = false → (!(c == a)) = true := by
    intro c hc
    rw [BEq.congr_right hb] at hc
    rw [hc]
    rfl
  have hafter' : ∀ c ∈ after, (!(c == a)) = true := by
    intro c hc
    have := List.rel_of_pairwise_cons hafter hc
    rw [BEq.comm] at this
    exact hkept c this
  have hbefore' : ∀ c ∈ before, (!(c == a)) = true :=
    fun c hc => hkept c (hbefore c hc b List.mem_cons_self)
  rw [List.filter_append, List.filter_cons_of_neg (by simp [hb]), List.filter_eq_self.2 hbefore',
    List.filter_eq_self.2 hafter']

/-- Adds an element at the end of a list, unless it is there, or takes it out; also whether that
changes the list. -/
def adjust (add : Bool) (l : List α) (a : α) : Bool × List α :=
  match add with
  | true => if l.any (· == a) then (false, l) else (true, l ++ [a])
  | false => (l.any (· == a), l.filter fun b => !(b == a))

lemma adjust_map (f : α → β) (hf : ∀ a b, (f a == f b) = (a == b)) (add : Bool) (l : List α)
    (a : α) :
    adjust add (l.map f) (f a) = ((adjust add l a).1, (adjust add l a).2.map f) := by
  cases add with
  | true =>
    simp only [adjust, List.any_map, Function.comp_def, hf]
    split <;> simp
  | false => simp only [adjust, List.any_map, List.filter_map, Function.comp_def, hf]

end

/-! ## Sets and tables -/

section
variable {α : Type}

namespace HookSet
variable [BEq α] (s : HookSet α) (a : α)

lemma insert_eq : s.insert a = ((adjust true s.toList a).1, ⟨(adjust true s.toList a).2⟩) := by
  unfold insert contains adjust toList
  cases s.items.any (· == a) <;> rfl

lemma remove_eq : s.remove a = ((adjust false s.toList a).1, ⟨(adjust false s.toList a).2⟩) := by
  -- the filter drops something exactly if the element is there
  have hany : ((s.items.filter fun b => !(b == a)).length != s.items.length) =
      s.items.any (· == a) := by
    rw [Bool.eq_iff_iff, bne_iff_ne, ne_eq, List.length_filter_eq_length_iff, List.any_eq_true]
    simp
  exact congrArg (·, _) hany

end HookSet

namespace PhaseTable

lemma get_set (t : PhaseTable α) (p q : Phase) (s : HookSet α) :
    (t.set p s).get q = if q = p then s else t.get q := by
  unfold get set
  by_cases h : q = p
  · subst h
    simp
  · have hother : (t.entries.filter (·.1 != p)).find? (·.1 == q) = t.entries.find? (·.1 == q) := by
      rw [List.find?_filter]
      congr 1
      funext e
      by_cases he : e.1 = q <;> simp [he, h]
    rw [List.find?_cons_of_neg (by simpa using Ne.symm h), hother, if_neg h]

variable [BEq α]

/-- Adds to the set of a phase or removes from it. -/
def edit (add : Bool) : PhaseTable α → Phase → α → Bool × PhaseTable α :=
  match add with
  | true => insert
  | false => remove

variable (add : Bool) (t : PhaseTable α) (p q : Phase) (a : α)

lemma edit_fst : (t.edit add p a).1 = (adjust add (t.get p).toList a).1 := by
  cases add with
  | true => simp only [edit, insert, HookSet.insert_eq]
  | false => simp only [edit, remove, HookSet.remove_eq]

lemma get_edit : ((t.edit add p a).2.get q).toList =
    if q = p then (adjust add (t.get p).toList a).2 else (t.get q).toList := by
  cases add with
  | true =>
    simp only [edit, insert, HookSet.insert_eq, get_set]
    split <;> rfl
  | false =>
    simp only [edit, remove, HookSet.remove_eq, get_set]
    split <;> rfl

end PhaseTable
end

/-! ## Changes and maps -/

/-- A change of a registry: a hook is registered or removed. -/
structure HookChange (C : Type) where
  add : Bool
  role : Role
  phase : Phase
  hook : Hook C

/-- Where the hook of a change belongs in a context of a role. A hook of the wrong kind belongs
nowhere, and of the hooks for the other side only a host's code for its workers has a place. -/
inductive HookChange.Belongs {C : Type} (own : Role) (c : HookChange C) : Scope → Prop
  | own (hkind : c.hook.kind = c.phase.kind) (hrole : c.role = own) : Belongs own c .own
  | shipped (hkind : c.hook.kind = c.phase.kind) (hown : own = .host) (hrole : c.role = .worker)
      (hcode : c.hook.kind = .code) : Belongs own c .shipped

/-- For every scope and phase the hooks in the order of registration. -/
abbrev HookMap (C : Type) := Scope → Phase → List (Hook C)

namespace HookMap
variable {C : Type}

/-- The map without hooks. -/
def empty : HookMap C := fun _ _ => []

/-- The map with another list in one place. -/
def put (m : HookMap C) (scope : Scope) (phase : Phase) (l : List (Hook C)) : HookMap C :=
  fun s p => if s = scope ∧ p = phase then l else m s p

lemma put_self (m : HookMap C) (scope : Scope) (phase : Phase) :
    m.put scope phase (m scope phase) = m := by
  funext s p
  unfold put
  split
  · rename_i h
    rw [h.1, h.2]
  · rfl

lemma put_ne {m : HookMap C} {scope : Scope} {phase : Phase} {l : List (Hook C)}
    (h : l.length ≠ (m scope phase).length) : m.put scope phase l ≠ m := by
  intro heq
  have := congrArg List.length (congrFun (congrFun heq scope) phase)
  simp only [put, and_self, if_true] at this
  exact h this

variable [BEq C]

/-- What a change does to the map of a context, and what it answers. -/
inductive Step (own : Role) (policy : RolePolicy) (m : HookMap C) (c : HookChange C) :
    Except HookError Bool → HookMap C → Prop
  /-- a hook that is new comes last -/
  | added {scope : Scope} (hadd : c.add = true) (hplace : c.Belongs own scope)
      (hnew : ∀ h ∈ m scope c.phase, (h == c.hook) = false) :
      Step own policy m c (.ok true) (m.put scope c.phase (m scope c.phase ++ [c.hook]))
  /-- one that is there already stays where it is -/
  | present {scope : Scope} {h : Hook C} (hadd : c.add = true) (hplace : c.Belongs own scope)
      (hmem : h ∈ m scope c.phase) (hsame : (h == c.hook) = true) :
      Step own policy m c (.ok false) m
  /-- exactly the hook that is removed goes, and the others keep their order -/
  | removed {scope : Scope} {h : Hook C} {before after : List (Hook C)} (hadd : c.add = false)
      (hplace : c.Belongs own scope) (hsplit : m scope c.phase = before ++ h :: after)
      (hsame : (h == c.hook) = true) :
      Step own policy m c (.ok true) (m.put scope c.phase (before ++ after))
  /-- what is not there can not be removed -/
  | absent {scope : Scope} (hadd : c.add = false) (hplace : c.Belongs own scope)
      (hnew : ∀ h ∈ m scope c.phase, (h == c.hook) = false) : Step own policy m c (.ok false) m
  /-- a hook of the wrong kind is an error under either policy -/
  | mismatched (hkind : c.hook.kind ≠ c.phase.kind) :
      Step own policy m c (.error (.kindMismatch c.phase c.phase.kind)) m
  /-- a hook for the wrong side is refused -/
  | refused (hkind : c.hook.kind = c.phase.kind) (hplace : ∀ scope, ¬ c.Belongs own scope)
      (hpolicy : policy = .reject) :
      Step own policy m c (.error (.wrongRole c.role c.phase own)) m
  /-- or dropped, as the policy says -/
  | dropped (hkind : c.hook.kind = c.phase.kind) (hplace : ∀ scope, ¬ c.Belongs own scope)
      (hpolicy : policy = .ignore) : Step own policy m c (.ok false) m

/-- What changes do to a map one after the other, with the answer of each. -/
inductive Run (own : Role) (policy : RolePolicy) :
    HookMap C → List (HookChange C) → List (Except HookError Bool) → HookMap C → Prop
  | nil (m : HookMap C) : Run own policy m [] [] m
  | cons {m m₁ m₂ : HookMap C} {c : HookChange C} {rest : List (HookChange C)}
      {answer : Except HookError Bool} {answers : List (Except HookError Bool)}
      (hstep : Step own policy m c answer m₁) (hrest : Run own policy m₁ rest answers m₂) :
      Run own policy m (c :: rest) (answer :: answers) m₂

/-- What holds of every map that a context of a role can have. -/
structure Sound (own : Role) (m : HookMap C) : Prop where
  /-- no hook stands twice -/
  distinct : ∀ scope phase, Distinct (m scope phase)
  /-- callbacks stand in callback phases and code in code phases -/
  kinds : ∀ scope phase, ∀ h ∈ m scope phase, h.kind = phase.kind
  /-- what is held for workers is code, and held by hosts -/
  shipped : ∀ phase, m .shipped phase ≠ [] → own = .host ∧ phase.kind = .code

variable {own : Role} {policy : RolePolicy} {m m' : HookMap C} {c : HookChange C}
  {answer : Except HookError Bool} {cs : List (HookChange C)}
  {answers : List (Except HookError Bool)}

lemma sound_empty (own : Role) : (empty : HookMap C).Sound own where
  distinct _ _ := .nil
  kinds _ _ _ h := nomatch h
  shipped _ h := absurd rfl h

/-- A list of hooks of one kind without repetition can take the place of another. -/
lemma Sound.put {scope : Scope} {phase : Phase} {l : List (Hook C)} (hm : m.Sound own)
    (hdistinct : Distinct l) (hkinds : ∀ h ∈ l, h.kind = phase.kind)
    (hshipped : scope = .shipped → own = .host ∧ phase.kind = .code) :
    (m.put scope phase l).Sound own := by
  refine ⟨fun s p => ?_, fun s p => ?_, fun p => ?_⟩
  all_goals unfold HookMap.put; split
  · exact hdistinct
  · exact hm.distinct s p
  · rename_i h
    rw [h.2]
    exact hkinds
  · exact hm.kinds s p
  · rename_i h
    rw [h.2]
    exact fun _ => hshipped h.1.symm
  · exact hm.shipped p

/-- Every change keeps a map sound. -/
lemma Step.sound (h : Step own policy m c answer m') (hm : m.Sound own) : m'.Sound own := by
  cases h with
  | @added scope hadd hplace hnew =>
    have hkind : c.hook.kind = c.phase.kind := by cases hplace <;> assumption
    refine hm.put ((hm.distinct scope c.phase).concat hnew) ?_ ?_
    · intro h hh
      rcases List.mem_append.1 hh with hh | hh
      · exact hm.kinds scope c.phase h hh
      · rw [List.mem_singleton.1 hh]
        exact hkind
    · rintro rfl
      cases hplace with
      | shipped _ hown _ hcode => exact ⟨hown, hkind.symm.trans hcode⟩
  | @removed scope h before after hadd hplace hsplit hsame =>
    have hsublist : (before ++ after).Sublist (m scope c.phase) :=
      hsplit ▸ .middle (.refl _) h
    refine hm.put (List.Pairwise.sublist hsublist (hm.distinct scope c.phase)) ?_ ?_
    · exact fun b hb => hm.kinds scope c.phase b (hsublist.subset hb)
    · rintro rfl
      exact hm.shipped c.phase (by simp [hsplit])
  | present | absent | mismatched | refused | dropped => exact hm

/-- The answer says whether the map has changed. -/
lemma Step.answer_iff (h : Step own policy m c answer m') : answer = .ok true ↔ m' ≠ m := by
  cases h with
  | added => exact iff_of_true rfl (put_ne (by simp))
  | removed hadd hplace hsplit => exact iff_of_true rfl (put_ne (by simp [hsplit]))
  | present | absent | mismatched | refused | dropped => simp

lemma Run.sound (h : Run own policy m cs answers m') (hm : m.Sound own) : m'.Sound own := by
  induction h with
  | nil m => exact hm
  | cons hstep hrest ih => exact ih (hstep.sound hm)

/-- A hook that a change brings was registered by it, in the place where it belongs. -/
lemma Step.origin (hstep : Step own policy m c answer m') {scope : Scope} {phase : Phase}
    {h : Hook C} (hh : h ∈ m' scope phase) :
    h ∈ m scope phase ∨ c.add = true ∧ c.phase = phase ∧ c.hook = h ∧ c.Belongs own scope := by
  cases hstep with
  | @added scope' hadd hplace hnew =>
    unfold put at hh
    split at hh
    · rename_i heq
      obtain ⟨rfl, rfl⟩ := heq
      rcases List.mem_append.1 hh with hh | hh
      · exact .inl hh
      · exact .inr ⟨hadd, rfl, (List.mem_singleton.1 hh).symm, hplace⟩
    · exact .inl hh
  | @removed scope' h' before after hadd hplace hsplit hsame =>
    unfold put at hh
    split at hh
    · rename_i heq
      obtain ⟨rfl, rfl⟩ := heq
      exact .inl (hsplit ▸ (List.Sublist.middle (.refl _) h').subset hh)
    · exact .inl hh
  | present | absent | mismatched | refused | dropped => exact .inl hh

/-- A hook that stands in a map at the end of a run stood there at its beginning, or was registered
where it belongs. -/
lemma Run.origin (hrun : Run own policy m cs answers m') {scope : Scope} {phase : Phase}
    {h : Hook C} (hh : h ∈ m' scope phase) :
    h ∈ m scope phase ∨
      ∃ c ∈ cs, c.add = true ∧ c.phase = phase ∧ c.hook = h ∧ c.Belongs own scope := by
  induction hrun with
  | nil m => exact .inl hh
  | @cons m m₁ m₂ c rest answer answers hstep hrest ih =>
    rcases ih hh with hh | ⟨c', hmem, hregistered⟩
    · exact (hstep.origin hh).imp_right fun hregistered => ⟨c, List.mem_cons_self, hregistered⟩
    · exact .inr ⟨c', List.mem_cons_of_mem c hmem, hregistered⟩

/-- What adjusting a list does to a map is a step. -/
lemma Step.of_adjust [EquivBEq C] {scope : Scope} (hplace : c.Belongs own scope)
    (hdistinct : Distinct (m scope c.phase)) :
    Step own policy m c (.ok (adjust c.add (m scope c.phase) c.hook).1)
      (m.put scope c.phase (adjust c.add (m scope c.phase) c.hook).2) := by
  cases hany : (m scope c.phase).any (· == c.hook) with
  | true =>
    obtain ⟨h, hmem, hsame⟩ := List.any_eq_true.1 hany
    cases hadd : c.add with
    | true =>
      simp only [adjust, hany, if_true, put_self]
      exact .present hadd hplace hmem hsame
    | false =>
      obtain ⟨before, after, hsplit⟩ := List.append_of_mem hmem
      simp only [adjust, hany]
      rw [hsplit] at hdistinct
      rw [hsplit, hdistinct.filter_split hsame]
      exact .removed hadd hplace hsplit hsame
  | false =>
    have hnew : ∀ h ∈ m scope c.phase, (h == c.hook) = false := by simpa using hany
    cases hadd : c.add with
    | true =>
      simp only [adjust, hany, Bool.false_eq_true, if_false]
      exact .added hadd hplace hnew
    | false =>
      have hkept : ((m scope c.phase).filter fun h => !(h == c.hook)) = m scope c.phase :=
        List.filter_eq_self.2 fun h hh => by simp [hnew h hh]
      simp only [adjust, hany, hkept, put_self]
      exact .absent hadd hplace hnew

end HookMap

/-! ## Contents of registries -/

namespace Registry
variable {C : Type} {r : Registry C}

/-- What a registry holds. -/
def contents (r : Registry C) : HookMap C
  | .own, p => (r.callbacksOf p).map .callback ++ (r.fragments p).map .code
  | .shipped, p => (r.shipped.get p).toList.map .code

lemma contents_new (role : Role) (policy : RolePolicy) :
    (new role policy : Registry C).contents = .empty := by
  funext scope phase
  cases scope <;> rfl

lemma contents_setShipped {phase : Phase} {t : PhaseTable String} {l : List String}
    (ht : ∀ q, (t.get q).toList = if q = phase then l else (r.shipped.get q).toList) :
    { r with shipped := t }.contents = r.contents.put .shipped phase (l.map .code) := by
  funext scope q
  cases scope with
  | own => simp [contents, HookMap.put, callbacksOf, fragments]
  | shipped =>
    by_cases hq : q = phase <;> simp [contents, HookMap.put, ht, hq]

/-! ## Places -/

variable {c : HookChange C} {scope : Scope}

lemma place_of_belongs (hplace : c.Belongs r.role scope) :
    r.place c.role c.phase c.hook = .ok (some scope) := by
  cases hplace with
  | own hkind hrole => rw [place, if_pos hkind, scopeFor, if_pos hrole]
  | shipped hkind hown hrole hcode =>
    have hne : c.role ≠ r.role := by rw [hrole, hown]; decide
    rw [place, if_pos hkind, scopeFor, if_neg hne, if_pos ⟨hown, hcode⟩]

lemma place_of_not_belongs (hkind : c.hook.kind = c.phase.kind)
    (hplace : ∀ scope, ¬ c.Belongs r.role scope) :
    r.place c.role c.phase c.hook = match r.policy with
      | .reject => .error (.wrongRole c.role c.phase r.role)
      | .ignore => .ok none := by
  have hne : c.role ≠ r.role := fun h => hplace .own (.own hkind h)
  have hcode : ¬(r.role = .host ∧ c.hook.kind = .code) := by
    rintro ⟨hown, hcode⟩
    have hrole : c.role = .worker := by
      rw [hown] at hne
      cases h : c.role with
      | host => exact absurd h hne
      | worker => rfl
    exact hplace .shipped (.shipped hkind hown hrole hcode)
  rw [place, if_pos hkind, scopeFor, if_neg hne]
  exact if_neg hcode

lemma update_keeps (r : Registry C) (scope : Scope) (phase : Phase) (hook : Hook C)
    (f : PhaseTable C → Phase → C → Bool × PhaseTable C)
    (g : PhaseTable String → Phase → String → Bool × PhaseTable String) :
    (r.update scope phase hook f g).2.role = r.role ∧
      (r.update scope phase hook f g).2.policy = r.policy := by
  cases scope <;> cases hook <;> exact ⟨rfl, rfl⟩

variable [BEq C]

/-- Makes a change: its answer, and the registry after it. An error leaves the registry as it is. -/
def apply (r : Registry C) (c : HookChange C) : Except HookError Bool × Registry C :=
  match if c.add then r.register c.role c.phase c.hook else r.unregister c.role c.phase c.hook with
  | .ok (changed, r) => (.ok changed, r)
  | .error e => (.error e, r)

/-- Makes changes one after the other. -/
def applyAll (r : Registry C) : List (HookChange C) → List (Except HookError Bool) × Registry C
  | [] => ([], r)
  | c :: rest =>
    let (answer, r) := r.apply c
    let (answers, r) := applyAll r rest
    (answer :: answers, r)

section
variable (h : r.contents.Sound r.role) {p : Phase}
include h

/-- Callback phases have no code. -/
lemma fragments_eq_nil (hp : p.kind = .callback) : r.fragments p = [] := by
  refine List.eq_nil_iff_forall_not_mem.2 fun s hs => ?_
  have hkind := h.kinds .own p (.code s) (List.mem_append_right _ (List.mem_map_of_mem hs))
  rw [hp] at hkind
  cases hkind

/-- Code phases have no callbacks. -/
lemma callbacksOf_eq_nil (hp : p.kind = .code) : r.callbacksOf p = [] := by
  refine List.eq_nil_iff_forall_not_mem.2 fun c hc => ?_
  have hkind := h.kinds .own p (.callback c) (List.mem_append_left _ (List.mem_map_of_mem hc))
  rw [hp] at hkind
  cases hkind

lemma contents_of_callback (hp : p.kind = .callback) :
    r.contents .own p = (r.callbacks.get p).toList.map .callback := by
  rw [contents, fragments_eq_nil h hp, List.map_nil, List.append_nil]
  rfl

lemma contents_of_code (hp : p.kind = .code) :
    r.contents .own p = (r.code.get p).toList.map .code := by
  rw [contents, callbacksOf_eq_nil h hp, List.map_nil, List.nil_append]
  rfl

lemma contents_setCallbacks (hp : p.kind = .callback) {t : PhaseTable C} {l : List C}
    (ht : ∀ q, (t.get q).toList = if q = p then l else (r.callbacks.get q).toList) :
    { r with callbacks := t }.contents = r.contents.put .own p (l.map .callback) := by
  have hcode : (r.code.get p).toList = [] := fragments_eq_nil h hp
  funext scope q
  cases scope with
  | own =>
    by_cases hq : q = p
    · subst hq
      simp [contents, HookMap.put, callbacksOf, fragments, ht, hcode]
    · simp [contents, HookMap.put, callbacksOf, fragments, ht, hq]
  | shipped => simp [contents, HookMap.put]

lemma contents_setCode (hp : p.kind = .code) {t : PhaseTable String} {l : List String}
    (ht : ∀ q, (t.get q).toList = if q = p then l else (r.code.get q).toList) :
    { r with code := t }.contents = r.contents.put .own p (l.map .code) := by
  have hcallbacks : (r.callbacks.get p).toList = [] := callbacksOf_eq_nil h hp
  funext scope q
  cases scope with
  | own =>
    by_cases hq : q = p
    · subst hq
      simp [contents, HookMap.put, callbacksOf, fragments, ht, hcallbacks]
    · simp [contents, HookMap.put, callbacksOf, fragments, ht, hq]
  | shipped => simp [contents, HookMap.put]

/-- Whatever the table, a change edits the list where its hook belongs. -/
lemma update_edit {c : HookChange C} {scope : Scope} (hplace : c.Belongs r.role scope) :
    (r.update scope c.phase c.hook (PhaseTable.edit c.add) (PhaseTable.edit c.add)).1 =
        (adjust c.add (r.contents scope c.phase) c.hook).1 ∧
      (r.update scope c.phase c.hook (PhaseTable.edit c.add) (PhaseTable.edit c.add)).2.contents =
        r.contents.put scope c.phase (adjust c.add (r.contents scope c.phase) c.hook).2 := by
  obtain ⟨add, role, phase, hook⟩ := c
  cases hplace with
  | own hkind hrole =>
    cases hook with
    | callback c =>
      have hkind : phase.kind = .callback := hkind.symm
      rw [contents_of_callback h hkind, adjust_map Hook.callback fun _ _ => rfl]
      exact ⟨PhaseTable.edit_fst .., contents_setCallbacks h hkind (PhaseTable.get_edit _ _ _ · _)⟩
    | code s =>
      have hkind : phase.kind = .code := hkind.symm
      rw [contents_of_code h hkind, adjust_map Hook.code fun _ _ => rfl]
      exact ⟨PhaseTable.edit_fst .., contents_setCode h hkind (PhaseTable.get_edit _ _ _ · _)⟩
  | shipped hkind hown hrole hcode =>
    cases hook with
    | callback c => cases hcode
    | code s =>
      rw [contents, adjust_map Hook.code fun _ _ => rfl]
      exact ⟨PhaseTable.edit_fst .., contents_setShipped (PhaseTable.get_edit _ _ _ · _)⟩

end

/-! ## Changes of registries -/

/-- The change that a mention of a hook makes. -/
lemma change_eq (r : Registry Callback) (ms : Mentions) (add : Bool) (role : Role)
    (phase : Phase) (group : Nat) (spec : HookSpec) :
    r.change ms add role phase group spec =
      ((r.apply ⟨add, role, phase, (ms.hook group spec).1⟩).1,
        (r.apply ⟨add, role, phase, (ms.hook group spec).1⟩).2, (ms.hook group spec).2) := by
  simp only [change, apply]
  split <;> simp only [*]

/-- A change by what becomes of the place of its hook. -/
lemma apply_eq (r : Registry C) (c : HookChange C) :
    r.apply c = match r.place c.role c.phase c.hook with
      | .error e => (.error e, r)
      | .ok none => (.ok false, r)
      | .ok (some scope) =>
        let (changed, r) := r.update scope c.phase c.hook (PhaseTable.edit c.add)
          (PhaseTable.edit c.add)
        (.ok changed, r) := by
  unfold apply
  cases c.add with
  | true =>
    rw [if_pos rfl, register]
    rcases r.place c.role c.phase c.hook with e | none | scope <;> rfl
  | false =>
    rw [if_neg (by decide), unregister]
    rcases r.place c.role c.phase c.hook with e | none | scope <;> rfl

lemma apply_keeps (r : Registry C) (c : HookChange C) :
    (r.apply c).2.role = r.role ∧ (r.apply c).2.policy = r.policy := by
  rw [apply_eq]
  rcases r.place c.role c.phase c.hook with e | none | scope
  · exact ⟨rfl, rfl⟩
  · exact ⟨rfl, rfl⟩
  · exact update_keeps ..

lemma apply_of_error {r : Registry C} {c : HookChange C} {e : HookError}
    (h : (r.apply c).1 = .error e) : (r.apply c).2 = r := by
  revert h
  rw [apply_eq]
  rcases r.place c.role c.phase c.hook with e | none | scope
  · exact fun _ => rfl
  · exact fun _ => rfl
  · exact fun h => nomatch h

/-- A change of a registry is a step of its contents. -/
theorem apply_step [EquivBEq C] (h : r.contents.Sound r.role) (c : HookChange C) :
    HookMap.Step r.role r.policy r.contents c (r.apply c).1 (r.apply c).2.contents := by
  rw [apply_eq]
  by_cases hkind : c.hook.kind = c.phase.kind
  · by_cases hplace : ∃ scope, c.Belongs r.role scope
    · obtain ⟨scope, hplace⟩ := hplace
      rw [place_of_belongs hplace]
      obtain ⟨hchanged, hcontents⟩ := update_edit h hplace
      simp only [hchanged, hcontents]
      exact .of_adjust hplace (h.distinct scope c.phase)
    · have hplace := not_exists.1 hplace
      rw [place_of_not_belongs hkind hplace]
      cases hpolicy : r.policy with
      | reject => exact .refused hkind hplace rfl
      | ignore => exact .dropped hkind hplace rfl
  · rw [place, if_neg hkind]
    exact .mismatched hkind

/-- The policy decides about answers, and about nothing that is held. -/
lemma apply_setPolicy (r : Registry C) (policy : RolePolicy) (c : HookChange C) :
    ({ r with policy := policy }.apply c).2 = { (r.apply c).2 with policy := policy } := by
  rw [apply_eq, apply_eq]
  by_cases hkind : c.hook.kind = c.phase.kind
  · by_cases hplace : ∃ scope, c.Belongs r.role scope
    · obtain ⟨scope, hplace⟩ := hplace
      rw [place_of_belongs hplace, place_of_belongs (r := { r with policy := policy }) hplace]
      cases scope <;> cases c.hook <;> rfl
    · have hplace := not_exists.1 hplace
      rw [place_of_not_belongs hkind hplace,
        place_of_not_belongs (r := { r with policy := policy }) hkind hplace]
      cases r.policy <;> cases policy <;> rfl
  · rw [place, place, if_neg hkind, if_neg hkind]

/-! ## Runs -/

lemma applyAll_keeps (r : Registry C) (cs : List (HookChange C)) :
    (r.applyAll cs).2.role = r.role ∧ (r.applyAll cs).2.policy = r.policy := by
  induction cs generalizing r with
  | nil => exact ⟨rfl, rfl⟩
  | cons c rest ih =>
    obtain ⟨hrole, hpolicy⟩ := ih (r.apply c).2
    exact ⟨hrole.trans (r.apply_keeps c).1, hpolicy.trans (r.apply_keeps c).2⟩

lemma applyAll_setPolicy (r : Registry C) (policy : RolePolicy) (cs : List (HookChange C)) :
    ({ r with policy := policy }.applyAll cs).2 = { (r.applyAll cs).2 with policy := policy } := by
  induction cs generalizing r with
  | nil => rfl
  | cons c rest ih =>
    show (({ r with policy := policy }.apply c).2.applyAll rest).2 = _
    rw [apply_setPolicy, ih]
    rfl

lemma applyAll_append (r : Registry C) (cs more : List (HookChange C)) :
    (r.applyAll (cs ++ more)).2 = ((r.applyAll cs).2.applyAll more).2 := by
  induction cs generalizing r with
  | nil => rfl
  | cons c rest ih => exact ih (r.apply c).2

/-- Changes of a registry, one after the other, are a run of its contents. -/
lemma applyAll_run [EquivBEq C] {r : Registry C} (h : r.contents.Sound r.role)
    (cs : List (HookChange C)) :
    HookMap.Run r.role r.policy r.contents cs (r.applyAll cs).1 (r.applyAll cs).2.contents := by
  induction cs generalizing r with
  | nil => exact .nil _
  | cons c rest ih =>
    have hstep := apply_step h c
    obtain ⟨hrole, hpolicy⟩ := r.apply_keeps c
    have hrest := ih (r := (r.apply c).2) (by rw [hrole]; exact hstep.sound h)
    rw [hrole, hpolicy] at hrest
    exact .cons hstep hrest

lemma sound_applyAll [EquivBEq C] (own : Role) (policy : RolePolicy) (cs : List (HookChange C)) :
    ((new own policy).applyAll cs).2.contents.Sound own := by
  have hnew : (new own policy : Registry C).contents.Sound own := by
    rw [contents_new]
    exact HookMap.sound_empty own
  exact (applyAll_run (r := new own policy) hnew cs).sound hnew

/-- No callback is registered for a phase twice. -/
lemma distinct_callbacksOf [EquivBEq C] (own : Role) (policy : RolePolicy)
    (cs : List (HookChange C)) (phase : Phase) :
    Distinct (((new own policy).applyAll cs).2.callbacksOf phase) := by
  have hdistinct := (sound_applyAll own policy cs).distinct .own phase
  exact List.pairwise_map.1 (List.pairwise_append.1 hdistinct).1

/-- A registry of a role after some changes and their answers, as it can be seen. -/
structure Reflects (own : Role) (policy : RolePolicy) (cs : List (HookChange C))
    (answers : List (Except HookError Bool)) (r : Registry C) : Prop where
  /-- it holds what the map holds after the same changes with the same answers -/
  run : HookMap.Run own policy .empty cs answers r.contents
  sound : r.contents.Sound own
  /-- what it holds was registered for the phase and the role where it stands -/
  origin : ∀ scope phase, ∀ h ∈ r.contents scope phase,
    ∃ c ∈ cs, c.add = true ∧ c.phase = phase ∧ c.hook = h ∧ c.Belongs own scope
  /-- its callback phases have callbacks only, and its code phases fragments only -/
  reads : ∀ p : Phase, match p.kind with
    | .callback => r.contents .own p = (r.callbacksOf p).map .callback ∧ r.fragments p = []
    | .code => r.contents .own p = (r.fragments p).map .code ∧ r.callbacksOf p = []
  /-- the answer to any further change says whether the contents change -/
  answer_iff : ∀ c, (r.apply c).1 = .ok true ↔ (r.apply c).2.contents ≠ r.contents
  /-- an error changes nothing -/
  unchanged : ∀ c e, (r.apply c).1 = .error e → (r.apply c).2 = r

/-- A new registry behaves like a map of lists without repetition under every sequence of changes,
and what it comes to hold does not depend on its policy. -/
theorem changes_refine_map [EquivBEq C] (own : Role) (policy : RolePolicy)
    (cs : List (HookChange C)) :
    Reflects own policy cs ((new own policy).applyAll cs).1 ((new own policy).applyAll cs).2 ∧
      ∀ other, ((new own other).applyAll cs).2.contents =
        ((new own policy).applyAll cs).2.contents := by
  have hnew : (new own policy : Registry C).contents.Sound own := by
    rw [contents_new]
    exact HookMap.sound_empty own
  have hrun := applyAll_run (r := new own policy) hnew cs
  have hsound := hrun.sound hnew
  rw [contents_new] at hrun
  have hrole : ((new own policy).applyAll cs).2.role = own := ((new own policy).applyAll_keeps cs).1
  generalize hr : ((new own policy : Registry C).applyAll cs).2 = r at *
  have hsound' : r.contents.Sound r.role := by rw [hrole]; exact hsound
  refine ⟨⟨hrun, hsound, ?_, ?_, ?_, fun _ _ => apply_of_error⟩, ?_⟩
  · intro scope phase h hh
    rcases hrun.origin hh with hnone | horigin
    · cases hnone
    · exact horigin
  · intro p
    cases hp : p.kind with
    | callback => exact ⟨contents_of_callback hsound' hp, fragments_eq_nil hsound' hp⟩
    | code => exact ⟨contents_of_code hsound' hp, callbacksOf_eq_nil hsound' hp⟩
  · exact fun c => (apply_step hsound' c).answer_iff
  · intro other
    have hother := applyAll_setPolicy (new own policy) other cs
    rw [hr] at hother
    have hcontents : ({ r with policy := other } : Registry C).contents = r.contents := rfl
    rw [← hcontents, ← hother]
    rfl

/-- Changes of a host's registry: a callback twice and another one of its name, code for the workers
and the same code for the host itself, a callback for the workers, and a removal. -/
def hostChanges : List (HookChange Callback) :=
  let first : Hook Callback := .callback ⟨0, "log", [], 0⟩
  let second : Hook Callback := .callback ⟨1, "log", [], 0⟩
  [⟨true, .host, .onReady, first⟩, ⟨true, .host, .onReady, second⟩, ⟨true, .host, .onReady, first⟩,
    ⟨true, .worker, .codeBeforeRun, .code "set a 1"⟩,
    ⟨true, .host, .codeBeforeRun, .code "set a 1"⟩, ⟨true, .worker, .onReady, first⟩,
    ⟨false, .host, .onReady, first⟩, ⟨false, .host, .onReady, first⟩]

theorem changes_refine_map_hostChanges :
    EquivBEq Callback ∧
      Reflects .host .reject hostChanges
        [.ok true, .ok true, .ok false, .ok true, .ok true,
          .error (.wrongRole .worker .onReady .host), .ok true, .ok false]
        ((new .host .reject).applyAll hostChanges).2 ∧
      ((new .host .ignore).applyAll hostChanges).2.contents .own .onReady =
        [.callback ⟨1, "log", [], 0⟩] := by
  obtain ⟨hreflects, hother⟩ := changes_refine_map .host .reject hostChanges
  refine ⟨inferInstance, hreflects, ?_⟩
  rw [hother .ignore]
  rfl

end Registry
end WorkerHost
