import WorkerHost.Proofs.Json.Decoder

/-!
# Documents held back

A value with its tag among its own members is read by holding all of them back as documents, and a
document has no decoder whose definition its reading could be composed along. So it is read back by
induction on the document, for which `Document.Nested` collects what is needed: how deep it nests
and that its numbers are read back.

* `Document.Nested.takes`: a document is read back as itself;
* `Decoder.internallyTagged_takes`: a value with its tag among its members is read back if its
  decoder takes the other members.
-/

namespace WorkerHost.Json

open Reader

namespace Document

mutual

/-- How deep the lists and objects of a document stand inside each other. -/
def nesting : Document → ℕ
  | .arr items => nestingOfItems items + 1
  | .obj members => nestingOfMembers members + 1
  | _ => 0

/-- The nesting of the deepest item. -/
def nestingOfItems : List Document → ℕ
  | [] => 0
  | d :: rest => max d.nesting (nestingOfItems rest)

/-- The nesting of the deepest member. -/
def nestingOfMembers : List (String × Document) → ℕ
  | [] => 0
  | (_, d) :: rest => max d.nesting (nestingOfMembers rest)

end

lemma nestingOfItems_le {n : ℕ} {items : List Document} (h : ∀ d ∈ items, d.nesting ≤ n) :
    nestingOfItems items ≤ n := by
  induction items with
  | nil => exact Nat.zero_le n
  | cons d items ih =>
    exact Nat.max_le.2 ⟨h d List.mem_cons_self, ih fun e he => h e (List.mem_cons_of_mem _ he)⟩

lemma nestingOfMembers_le {n : ℕ} {members : List (String × Document)}
    (h : ∀ m ∈ members, m.2.nesting ≤ n) : nestingOfMembers members ≤ n := by
  induction members with
  | nil => exact Nat.zero_le n
  | cons m members ih =>
    exact Nat.max_le.2 ⟨h m List.mem_cons_self, ih fun e he => h e (List.mem_cons_of_mem _ he)⟩

/-- The document nests at most so deep, and its numbers have the property. -/
inductive Nested (P : Number → Prop) : ℕ → Document → Prop
  | null (n : ℕ) : Nested P n .null
  | bool (n : ℕ) (b : Bool) : Nested P n (.bool b)
  | num (n : ℕ) {x : Number} (h : P x) : Nested P n (.num x)
  | str (n : ℕ) (s : String) : Nested P n (.str s)
  | arr {n : ℕ} {items : List Document} (h : ∀ d ∈ items, Nested P n d) :
      Nested P (n + 1) (.arr items)
  | obj {n : ℕ} {members : List (String × Document)} (h : ∀ m ∈ members, Nested P n m.2) :
      Nested P (n + 1) (.obj members)

namespace Nested
variable {P : Number → Prop} {n m : ℕ} {d : Document}

lemma mono (h : Nested P n d) (hnm : n ≤ m) : Nested P m d := by
  induction h generalizing m with
  | null => exact .null m
  | bool _ b => exact .bool m b
  | num _ h => exact .num m h
  | str _ s => exact .str m s
  | arr _ ih =>
    obtain ⟨m, rfl⟩ := Nat.exists_eq_add_of_le' (Nat.le_of_add_left_le hnm)
    exact .arr fun d hd => ih d hd (Nat.le_of_succ_le_succ hnm)
  | obj _ ih =>
    obtain ⟨m, rfl⟩ := Nat.exists_eq_add_of_le' (Nat.le_of_add_left_le hnm)
    exact .obj fun p hp => ih p hp (Nat.le_of_succ_le_succ hnm)

lemma nesting_le (h : Nested P n d) : d.nesting ≤ n := by
  induction h with
  | arr _ ih => exact Nat.succ_le_succ (nestingOfItems_le ih)
  | obj _ ih => exact Nat.succ_le_succ (nestingOfMembers_le ih)
  | _ => exact Nat.zero_le _

end Nested
end Document

namespace Reader

/-- Members are held back with the last of them on top, in whatever state they are kept. -/
lemma steps_held {σ : Type} (step : σ → String → Reader σ) (keep : List (String × Document) → σ)
    (ms : List (String × Document))
    (h : ∀ m ∈ ms, ∀ acc, Takes (step (keep acc) m.1) (58 :: m.2.write) (keep (m :: acc)))
    (acc : List (String × Document)) : Steps step (keep acc) ms (keep (ms.reverse ++ acc)) := by
  induction ms generalizing acc with
  | nil => exact .done _
  | cons m ms ih =>
    have hrest := ih (fun m' hm' => h m' (List.mem_cons_of_mem _ hm')) (m :: acc)
    rw [List.reverse_cons, List.append_assoc]
    exact .member (h m List.mem_cons_self acc) hrest

end Reader

/-- A document whose numbers are read back is read back as itself. -/
theorem Document.Nested.takes {n : ℕ} {d : Document}
    (h : Nested (fun x => Numeral x.write x) n d) {depth : ℕ} (hdepth : n ≤ depth) :
    Takes (document depth) d.write d := by
  induction h generalizing depth with
  | null =>
    intro rest _
    unfold document
    rfl
  | bool n b =>
    intro rest _
    unfold document
    cases b <;> rfl
  | num n h => exact h.document depth
  | str n s => exact (Decoder.Reads.any_str (n := 0) s).stream depth (Nat.zero_le _)
  | @arr n items _ ih =>
    obtain ⟨depth, rfl⟩ := Nat.exists_eq_add_of_le' (Nat.le_of_add_left_le hdepth)
    intro rest hrest
    have hitems : List.Forall₂ (fun d b => Takes (document depth) d.write b) items items :=
      List.forall₂_same.2 fun d hd => ih d hd (Nat.le_of_succ_le_succ hdepth)
    unfold document
    show (Document.arr <$> Reader.items (document depth)) (writeItems true items ++ rest) = _
    rw [map_run (items_writeItems hitems)]
  | @obj n members _ ih =>
    obtain ⟨depth, rfl⟩ := Nat.exists_eq_add_of_le' (Nat.le_of_add_left_le hdepth)
    intro rest hrest
    -- the members read so far are kept with the last on top and turned round at the end
    have hmember : ∀ m ∈ members, ∀ acc, Takes (do colon; return (m.1, ← document depth) :: acc)
        (58 :: m.2.write) (m :: acc) := fun m hm acc =>
      ((ih m hm (Nat.le_of_succ_le_succ hdepth)).map fun d => (m.1, d) :: acc).colon
    have hsteps := steps_held (fun acc key => do colon; return (key, ← document depth) :: acc) id
      members hmember []
    unfold document
    show (Reader.members [] (fun acc key => do colon; return (key, ← document depth) :: acc) >>=
      fun acc => pure (Document.obj acc.reverse)) (writeMembers true members ++ rest) = _
    simp only [id, List.append_nil] at hsteps
    rw [bind_run (members_writeMembers hsteps), List.reverse_reverse]
    rfl

namespace Decoder
variable {α : Type} {tagKey tag : String} {variants : String → Option (Decoder α)} {d : Decoder α}
  {a : α} {n : ℕ} {ms : List (String × Document)}

/-- One member of a value with its tag among its members: the tag chooses a decoder, and everything
else is held back. -/
def heldMember (tagKey : String) (variants : String → Option (Decoder α)) (depth : ℕ) :
    Option (Decoder α) × List (String × Document) → String →
      Reader (Option (Decoder α) × List (String × Document))
  | (d, ms), key => do
    if key == tagKey then
      match d with
      | some _ => wrongShape
      | none => do
        colon
        return (some (← internallyTagged.plainTag variants), ms)
    else do
      colon
      return (d, (key, ← document depth) :: ms)

lemma heldMember_tag (tagKey : String) (htag : variants tag = some d) (depth : ℕ)
    (acc : List (String × Document)) :
    Takes (heldMember tagKey variants depth (none, acc) tagKey) (58 :: (Document.str tag).write)
      (some d, acc) := by
  have hplain : Takes (internallyTagged.plainTag variants) (Document.str tag).write d := by
    intro rest hrest
    show (Decoder.string.stream 0 >>= fun name => shaped (variants name)) _ = _
    rw [bind_run ((Reads.string (n := 0) tag).stream 0 (Nat.le_refl 0) rest hrest), htag]
    rfl
  unfold heldMember
  dsimp only
  rw [if_pos (by simp)]
  exact (hplain.map fun d => (some d, acc)).colon

lemma heldMember_of_ne {m : String × Document} (hkey : m.1 ≠ tagKey) {depth : ℕ}
    (hm : Takes (document depth) m.2.write m.2) (acc : List (String × Document)) :
    Takes (heldMember tagKey variants depth (some d, acc) m.1) (58 :: m.2.write)
      (some d, m :: acc) := by
  unfold heldMember
  dsimp only
  rw [if_neg (by simpa using hkey)]
  exact (hm.map fun doc => (some d, (m.1, doc) :: acc)).colon

/-- A value with its tag among its members is read back if the decoder that the tag chooses takes
the other members from where they are held back. -/
theorem internallyTagged_takes (htag : variants tag = some d) (hkeys : ∀ m ∈ ms, m.1 ≠ tagKey)
    (hms : ∀ m ∈ ms, m.2.Nested (fun x => Numeral x.write x) n) (hd : d.buffered (.obj ms) = some a)
    {depth : ℕ} (hdepth : n + 1 ≤ depth) :
    Takes ((internallyTagged tagKey variants).stream depth)
      (Document.obj ((tagKey, .str tag) :: ms)).write a := by
  obtain ⟨depth, rfl⟩ := Nat.exists_eq_add_of_le' (Nat.le_of_add_left_le hdepth)
  have hmember : ∀ m ∈ ms, ∀ acc, Takes (heldMember tagKey variants depth (some d, acc) m.1)
      (58 :: m.2.write) (some d, m :: acc) := fun m hm =>
    heldMember_of_ne (hkeys m hm) ((hms m hm).takes (Nat.le_of_succ_le_succ hdepth))
  have hheld := steps_held (heldMember tagKey variants depth) (some d, ·) ms hmember []
  -- the tag comes first, and so every other member finds its decoder chosen
  have hsteps := Steps.member (heldMember_tag tagKey htag depth []) hheld
  intro rest _
  show (Reader.members (none, []) (heldMember tagKey variants depth) >>=
    fun p : Option (Decoder α) × List (String × Document) =>
      match p.1 with
      | some d => internallyTagged.held d (.obj p.2.reverse)
      | none => wrongShape) (writeMembers true ((tagKey, .str tag) :: ms) ++ rest) = _
  rw [bind_run (members_writeMembers hsteps)]
  simp only [List.append_nil, List.reverse_reverse, internallyTagged.held, hd]
  rfl

end Decoder
end WorkerHost.Json
