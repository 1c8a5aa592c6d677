import WorkerHost.Proofs.Json.Held
import WorkerHost.Proofs.Outcome

/-!
# The integers of a text

A number in a text is kept as an integer only if it is one from `-2 ^ 63` up to `2 ^ 64 - 1`; every
other number becomes a float. `Yields P r` says what the reader `r` gives, whatever it reads and
wherever it stops, and passes through the parts that readers are made of.

* `yields_number`: the number that is read is a float or an integer in that range;
* `Document.nested_of_read`: so are all numbers of a document that is read.
-/

namespace WorkerHost.Json

/-- The number is a float, or an integer in the range of those that are kept. -/
def Number.InRange : Number → Prop
  | .int n => -2 ^ 63 ≤ n ∧ n < 2 ^ 64
  | .float _ => True

namespace Reader

/-- Whatever the reader gives has the property. -/
def Yields {α : Type} (P : α → Prop) (r : Reader α) : Prop :=
  ∀ s a s', r s = .ok (a, s') → P a

section Yields
variable {α β σ : Type} {P : α → Prop} {Q : β → Prop} {r : Reader α}

lemma yields_true (r : Reader α) : Yields (fun _ => True) r :=
  fun _ _ _ _ => trivial

lemma Yields.pure {a : α} (ha : P a) : Yields P (Pure.pure a) := by
  intro s b s' heq
  cases heq
  exact ha

lemma yields_failHere (c : Cause) : Yields P (failHere c) :=
  nofun

lemma yields_failNext (c : Cause) : Yields P (failNext c) :=
  nofun

lemma Yields.bind {f : α → Reader β} (hr : Yields P r) (hf : ∀ a, P a → Yields Q (f a)) :
    Yields Q (r >>= f) := by
  intro s b s₂ h
  obtain ⟨⟨a, s₁⟩, h₁, h₂⟩ := bind_eq_ok.1 (show (r s >>= fun p => f p.1 p.2) = _ from h)
  exact hf a (hr s a s₁ h₁) s₁ b s₂ h₂

/-- What a reader gives does not depend on what was read before it. -/
lemma yields_after (r : Reader α) {f : α → Reader β} (hf : ∀ a, Yields Q (f a)) :
    Yields Q (r >>= f) :=
  (yields_true r).bind fun a _ => hf a

lemma Yields.ite {c : Prop} [Decidable c] {r' : Reader α} (hr : Yields P r) (hr' : Yields P r') :
    Yields P (if c then r else r') := by
  split
  · exact hr
  · exact hr'

/-! ## Items and members -/

lemma yields_itemsLoop {item : Reader α} (hitem : Yields P item) (fuel : ℕ) (first : Bool)
    {acc : List α} (hacc : ∀ a ∈ acc, P a) :
    Yields (fun as => ∀ a ∈ as, P a) (itemsLoop item fuel first acc) := by
  induction fuel generalizing first acc with
  | zero => exact yields_failHere _
  | succ fuel ih =>
    refine yields_after _ fun more => Yields.ite ?_ (yields_after _ fun _ => .pure hacc)
    exact hitem.bind fun a ha => ih false (List.forall_mem_cons.2 ⟨ha, hacc⟩)

lemma Yields.items {item : Reader α} (hitem : Yields P item) :
    Yields (fun as => ∀ a ∈ as, P a) (items item) := by
  intro s as s' h
  obtain ⟨⟨acc, rest⟩, hloop, heq⟩ := bind_eq_ok.1 h
  cases heq
  intro a ha
  exact yields_itemsLoop hitem _ _ (fun _ hb => absurd hb List.not_mem_nil) s acc _ hloop a
    (List.mem_reverse.1 ha)

/-- What every step over a member keeps holds in the end. -/
lemma Yields.foldMembers {step : α → String → Reader α} (hstep : ∀ a k, P a → Yields P (step a k))
    (fuel : ℕ) (first : Bool) {acc : α} (hacc : P acc) :
    Yields P (foldMembers step fuel first acc) := by
  induction fuel generalizing first acc with
  | zero => exact yields_failHere _
  | succ fuel ih =>
    refine yields_after _ fun more => Yields.ite ?_ (yields_after _ fun _ => .pure hacc)
    refine yields_after _ fun _ => yields_after _ fun key => ?_
    exact (hstep acc key hacc).bind fun a ha => ih false ha

lemma Yields.members {step : α → String → Reader α} (hstep : ∀ a k, P a → Yields P (step a k))
    {acc : α} (hacc : P acc) : Yields P (members acc step) :=
  fun s => Yields.foldMembers hstep (s.length + 1) true hacc s

end Yields

/-! ## Numbers -/

lemma yields_floatOf {negative : Bool} {value : ℕ} {exponent : ℤ} :
    Yields Number.InRange (floatOf negative value exponent) := by
  unfold floatOf
  split
  · exact .pure trivial
  · exact yields_failHere _

lemma yields_exponentValue {negative : Bool} {value : ℕ} {start : ℤ} {positive : Bool} :
    Yields Number.InRange (exponentValue negative value start positive) := by
  intro s x s' h
  unfold exponentValue at h
  split at h
  · exact yields_floatOf _ x s' h
  · split at h
    · cases h
    · cases h
      trivial

lemma yields_exponentPart {negative : Bool} {value : ℕ} {start : ℤ} :
    Yields Number.InRange (exponentPart negative value start) := by
  refine yields_after _ fun _ => yields_after _ fun positive => yields_after _ fun b => ?_
  split
  · exact yields_failHere _
  · exact .ite yields_exponentValue (yields_after _ fun _ => yields_failHere _)

lemma yields_fractionPart {negative : Bool} {value : ℕ} {start : ℤ} :
    Yields Number.InRange (fractionPart negative value start) := by
  refine yields_after _ fun _ => yields_after _ fun ds => Yields.ite ?_ ?_
  · refine yields_after _ fun b => ?_
    split
    · exact yields_failNext _
    · exact yields_failNext _
  · refine yields_after _ fun b => ?_
    split
    · exact .ite yields_exponentPart yields_floatOf
    · exact yields_floatOf

lemma value_ofDigits_lt (ds : List ℕ) : (Significand.ofDigits 0 ds).value < 2 ^ 64 := by
  have hpush : ∀ m : Significand, m.value < 2 ^ 64 →
      (ds.foldl Significand.push m).value < 2 ^ 64 := by
    induction ds with
    | nil => exact fun m hm => hm
    | cons d ds ih =>
      intro m hm
      refine ih _ ?_
      unfold Significand.push
      split
      · next hfits =>
        simp only [Bool.and_eq_true, decide_eq_true_eq] at hfits
        exact hfits.2
      · exact hm
  exact hpush ⟨0, 0, 0⟩ (by decide)

lemma yields_whole {negative : Bool} {m : Significand} (hm : m.value < 2 ^ 64) :
    Yields Number.InRange (afterInteger.whole negative m) := by
  unfold afterInteger.whole
  split
  · exact yields_floatOf
  split
  · refine .pure ⟨?_, ?_⟩ <;> omega
  split
  · exact .pure trivial
  · next hsmall =>
    simp only [Bool.or_eq_true, decide_eq_true_eq, not_or] at hsmall
    refine .pure ⟨?_, ?_⟩ <;> omega

lemma yields_afterInteger {negative : Bool} {m : Significand} (hm : m.value < 2 ^ 64) :
    Yields Number.InRange (afterInteger negative m) := by
  refine yields_after _ fun b => ?_
  split
  · exact .ite yields_fractionPart (.ite yields_exponentPart (yields_whole hm))
  · exact yields_whole hm

/-- A number that is read is a float, or an integer in range. -/
theorem yields_number (negative : Bool) : Yields Number.InRange (number negative) := by
  refine yields_after _ fun b => ?_
  split
  · exact yields_failHere _
  refine .ite ?_ (.ite ?_ (yields_after _ fun _ => yields_failHere _))
  · refine yields_after _ fun _ => yields_after _ fun d => ?_
    split
    · exact .ite (yields_failNext _) (yields_afterInteger (by decide))
    · exact yields_afterInteger (by decide)
  · exact yields_after _ fun ds => yields_afterInteger (value_ofDigits_lt ds)

/-! ## Documents -/

lemma yields_document_of_below {depth : ℕ}
    (hbelow : ∀ n, depth = n + 1 → Yields (Document.Nested Number.InRange n) (document n)) :
    Yields (Document.Nested Number.InRange depth) (document depth) := by
  unfold document
  refine yields_after _ fun b => ?_
  split
  · exact yields_failNext _
  have hliteral (cs : List Char) {d : Document} (hd : d.Nested Number.InRange depth) :
      Yields (Document.Nested Number.InRange depth) (do skip; literal cs; pure d) :=
    yields_after _ fun _ => yields_after _ fun _ => .pure hd
  refine .ite (hliteral _ (.null _)) (.ite (hliteral _ (.bool _ _)) (.ite (hliteral _ (.bool _ _))
    (.ite ?_ (.ite ?_ (.ite ?_ (.ite ?_ (.ite ?_ (yields_failNext _))))))))
  · exact yields_after _ fun _ => (yields_number true).bind fun x hx => .pure (.num _ hx)
  · exact (yields_number false).bind fun x hx => .pure (.num _ hx)
  · exact yields_after _ fun _ => yields_after _ fun s => .pure (.str _ s)
  · split
    · exact yields_failNext _
    · exact yields_after _ fun _ => (hbelow _ rfl).items.bind fun _ h => .pure (.arr h)
  · split
    · exact yields_failNext _
    · next n =>
      refine yields_after _ fun _ => (Yields.members
        (P := fun ms => ∀ m ∈ ms, Document.Nested Number.InRange n m.2) (fun ms k hms => ?_)
        (fun _ hm => absurd hm List.not_mem_nil)).bind fun ms hms => .pure (.obj fun m hm => ?_)
      · exact yields_after _ fun _ => (hbelow n rfl).bind fun d hd =>
          .pure (List.forall_mem_cons.2 ⟨hd, hms⟩)
      · exact hms m (List.mem_reverse.1 hm)

/-- The numbers of a document that is read are in range. -/
lemma yields_document (depth : ℕ) :
    Yields (Document.Nested Number.InRange depth) (document depth) := by
  induction depth with
  | zero => exact yields_document_of_below nofun
  | succ depth ih => exact yields_document_of_below fun n hn => Nat.succ.inj hn ▸ ih

end Reader

/-- The numbers of a document that is read are in range. -/
theorem Document.nested_of_read {text : List UInt8} {d : Document}
    (h : Document.read text = .ok d) : d.Nested Number.InRange Reader.maxDepth := by
  obtain ⟨s', hread, -⟩ := Reader.readAll_eq_ok.1 h
  exact Reader.yields_document _ _ d s' hread

end WorkerHost.Json
