import WorkerHost.Proofs.Json.Number
import WorkerHost.Proofs.Json.String

/-!
# Lists and objects

A list or an object is read back if its parts are: one item, or one member, is one step of a loop.
`Steps` is the run of a member reader over the members of an object, so what an object is read as
is a question about that run, with no bytes in it but those of each value.
-/

namespace WorkerHost.Json

/-- The written form of a document begins like a value. -/
lemma Document.exists_write (d : Document) : ∃ b t, d.write = b :: t ∧ Begins b := by
  have hbyte : ∀ {b}, Reader.IsNumeralByte b → Begins b := by
    intro b hb
    refine ⟨hb.not_isBlank, ?_⟩
    rcases hb with hb | rfl | rfl | rfl | rfl
    · have hne : ∀ c, Reader.isDigit c = false → b ≠ c := by
        intro c hc heq
        rw [← heq, hb] at hc
        cases hc
      exact ⟨hne 44 rfl, hne 93 rfl, hne 125 rfl⟩
    all_goals decide
  cases d with
  | null => exact ⟨110, [117, 108, 108], rfl, by decide⟩
  | bool b =>
    cases b with
    | true => exact ⟨116, [114, 117, 101], rfl, by decide⟩
    | false => exact ⟨102, [97, 108, 115, 101], rfl, by decide⟩
  | num n =>
    obtain ⟨hne, hbytes⟩ := Reader.isNumeralByte_write n
    obtain ⟨b, t, hwrite⟩ := List.exists_cons_of_ne_nil hne
    exact ⟨b, t, by rw [Document.write, hwrite], hbyte (hbytes b (hwrite ▸ List.mem_cons_self))⟩
  | str s => exact ⟨34, (quote s).tail, rfl, by decide⟩
  | arr items => exact ⟨91, writeItems true items, rfl, by decide⟩
  | obj members => exact ⟨123, writeMembers true members, rfl, by decide⟩

namespace Reader
variable {α β σ : Type} {s rest : List UInt8}

/-! ## Lists -/

lemma hasItem_close (first : Bool) : hasItem first (93 :: s) = .ok (false, 93 :: s) := by
  cases first <;> rfl

/-- The first item comes at once, every other one after a comma. -/
lemma hasItem_item {b : UInt8} (hb : Begins b) (first : Bool) :
    hasItem first ((if first then [] else [44]) ++ b :: s) = .ok (true, b :: s) := by
  obtain ⟨hblank, -, hclose, -⟩ := hb
  have hclose : (b == byte ']') = false := beq_false_of_ne hclose
  cases first with
  | true =>
    unfold hasItem
    rw [if_pos rfl, List.nil_append, bind_run (peekToken_cons hblank)]
    simp only [hclose]
    rfl
  | false =>
    have hcomma : peekToken (44 :: b :: s) = .ok (some 44, 44 :: b :: s) := rfl
    have hskip : skip (44 :: b :: s) = .ok ((), b :: s) := rfl
    unfold hasItem
    show (peekToken >>= _) (44 :: b :: s) = _
    rw [bind_run hcomma]
    show (skip >>= fun _ => peekToken >>= _) (44 :: b :: s) = _
    rw [bind_run hskip, bind_run (peekToken_cons hblank)]
    simp only [hclose]
    rfl

/-- The items of a list are read back one by one, and the closing bracket after them. -/
lemma itemsLoop_writeItems {item : Reader β} {docs : List Document} {bs : List β}
    (hitems : List.Forall₂ (fun d b => Takes item d.write b) docs bs) {fuel : ℕ}
    (hfuel : docs.length < fuel) (first : Bool) (acc : List β) :
    itemsLoop item fuel first acc (writeItems first docs ++ rest) =
      .ok (bs.reverse ++ acc, rest) := by
  induction hitems generalizing fuel first acc with
  | nil =>
    obtain ⟨fuel, rfl⟩ := Nat.exists_eq_succ_of_ne_zero (Nat.ne_of_gt hfuel)
    unfold itemsLoop writeItems
    rw [List.singleton_append, bind_run (hasItem_close first)]
    rfl
  | @cons d b docs bs hd hrest ih =>
    obtain ⟨fuel, rfl⟩ := Nat.exists_eq_succ_of_ne_zero (Nat.ne_zero_of_lt hfuel)
    obtain ⟨c, t, hwrite, hc⟩ := d.exists_write
    -- the item is followed by a comma or by the bracket
    have hstops : Stops (writeItems false docs ++ rest) := by
      cases docs with
      | nil => exact stops_bracket rest
      | cons d' docs => exact stops_comma _
    have hitem := hd _ hstops
    rw [hwrite, List.cons_append] at hitem
    unfold itemsLoop writeItems
    rw [hwrite, List.append_assoc, List.append_assoc, List.cons_append,
      bind_run (hasItem_item hc first), if_pos rfl, bind_run hitem,
      ih (Nat.lt_of_succ_lt_succ hfuel)]
    simp

/-- Each item takes at least one byte. -/
lemma length_lt_writeItems (first : Bool) (docs : List Document) :
    docs.length < (writeItems first docs).length := by
  induction docs generalizing first with
  | nil => simp [writeItems]
  | cons d docs ih =>
    obtain ⟨b, t, hwrite, -⟩ := d.exists_write
    have hrest := ih false
    simp only [writeItems, hwrite, List.length_append, List.length_cons]
    omega

/-- What stands after the opening bracket of a list is read back if its items are. -/
lemma items_writeItems {item : Reader β} {docs : List Document} {bs : List β}
    (hitems : List.Forall₂ (fun d b => Takes item d.write b) docs bs) :
    items item (writeItems true docs ++ rest) = .ok (bs, rest) := by
  have hfuel : docs.length < (writeItems true docs ++ rest).length + 1 := by
    have := length_lt_writeItems true docs
    rw [List.length_append]
    omega
  unfold items
  rw [itemsLoop_writeItems hitems hfuel]
  simp [bind, Except.bind]

/-! ## Objects -/

/-- A member reader goes through members, each value read from its colon on. -/
inductive Steps (step : σ → String → Reader σ) : σ → List (String × Document) → σ → Prop
  | done (s : σ) : Steps step s [] s
  | member {s₁ s₂ s₃ : σ} {key : String} {d : Document} {ms : List (String × Document)}
      (h : Takes (step s₁ key) (58 :: d.write) s₂) (hrest : Steps step s₂ ms s₃) :
      Steps step s₁ ((key, d) :: ms) s₃

lemma hasMember_close (first : Bool) : hasMember first (125 :: s) = .ok (false, 125 :: s) := by
  cases first <;> rfl

/-- The key of the first member comes at once, every other one after a comma. -/
lemma hasMember_member (first : Bool) :
    hasMember first ((if first then [] else [44]) ++ 34 :: s) = .ok (true, 34 :: s) := by
  cases first <;> rfl

/-- The members of an object are read back one by one, and the closing brace after them. -/
lemma foldMembers_writeMembers {step : σ → String → Reader σ} {s₁ s₂ : σ}
    {ms : List (String × Document)} (hsteps : Steps step s₁ ms s₂) {fuel : ℕ}
    (hfuel : ms.length < fuel) (first : Bool) :
    foldMembers step fuel first s₁ (writeMembers first ms ++ rest) = .ok (s₂, rest) := by
  induction hsteps generalizing fuel first with
  | done s =>
    obtain ⟨fuel, rfl⟩ := Nat.exists_eq_succ_of_ne_zero (Nat.ne_of_gt hfuel)
    unfold foldMembers writeMembers
    rw [List.singleton_append, bind_run (hasMember_close first)]
    rfl
  | @member s₁ s₂ s₃ key d ms h _ ih =>
    obtain ⟨fuel, rfl⟩ := Nat.exists_eq_succ_of_ne_zero (Nat.ne_zero_of_lt hfuel)
    -- the value is followed by a comma or by the brace
    have hstops : Stops (writeMembers false ms ++ rest) := by
      cases ms with
      | nil => exact stops_brace rest
      | cons m ms => exact stops_comma _
    have htext : writeMembers first ((key, d) :: ms) ++ rest =
        (if first then [] else [44]) ++ 34 :: ((quote key).tail ++
          (58 :: d.write ++ (writeMembers false ms ++ rest))) := by
      simp [writeMembers, quote]
    have hskip (t : List UInt8) : skip (34 :: t) = .ok ((), t) := rfl
    unfold foldMembers
    rw [htext, bind_run (hasMember_member first), if_pos rfl, bind_run (hskip _),
      bind_run (string_quote key _), bind_run (h _ hstops), ih (Nat.lt_of_succ_lt_succ hfuel)]

lemma length_lt_writeMembers (first : Bool) (ms : List (String × Document)) :
    ms.length < (writeMembers first ms).length := by
  induction ms generalizing first with
  | nil => simp [writeMembers]
  | cons m ms ih =>
    have hrest := ih false
    simp only [writeMembers, quote, List.length_append, List.length_cons]
    omega

/-- What stands after the opening brace of an object is read back if its members are. -/
lemma members_writeMembers {step : σ → String → Reader σ} {s₁ s₂ : σ}
    {ms : List (String × Document)} (hsteps : Steps step s₁ ms s₂) :
    members s₁ step (writeMembers true ms ++ rest) = .ok (s₂, rest) := by
  have hfuel : ms.length < (writeMembers true ms ++ rest).length + 1 := by
    have := length_lt_writeMembers true ms
    rw [List.length_append]
    omega
  exact foldMembers_writeMembers hsteps hfuel true

/-- The value of a member, read from its colon on. -/
lemma Takes.colon {r : Reader α} {d : Document} {a : α} (h : Takes r d.write a) :
    Takes (Reader.colon >>= fun _ => r) (58 :: d.write) a := by
  intro rest hrest
  rw [List.cons_append, bind_run colon_cons]
  exact h rest hrest

end Reader
end WorkerHost.Json
