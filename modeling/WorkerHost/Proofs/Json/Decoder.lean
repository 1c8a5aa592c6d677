import Mathlib.Data.List.Forall2
import WorkerHost.Json.Decoder
import WorkerHost.Proofs.Json.Document

/-!
# Typed readers

`Decoder.Reads d n doc a`: the decoder `d` reads the document `doc` as `a`, in both of its ways,
where `n` is how deep `doc` nests at most. There is one lemma for each way to build a decoder,
which says what the built one reads from what its parts read; a format is then read back by
composing them along its own definition, and the nesting of its text is counted on the way.
-/

namespace WorkerHost.Json

open Reader

namespace Decoder
variable {α β σ : Type}

/-- The decoder reads the document, which nests at most so deep, as the value, from its text and
as it is held back. -/
structure Reads (d : Decoder α) (n : ℕ) (doc : Document) (a : α) : Prop where
  stream : ∀ depth, n ≤ depth → Takes (d.stream depth) doc.write a
  buffered : d.buffered doc = some a

namespace Reads
variable {d : Decoder α} {e : Decoder β} {n m : ℕ} {doc : Document} {a : α}

/-- A text that is all of what is read. -/
lemma readAll (h : d.Reads n doc a) (hn : n ≤ maxDepth) : d.readAll doc.write = .ok a :=
  (h.stream maxDepth hn).readAll

lemma mono (h : d.Reads n doc a) (hnm : n ≤ m) : d.Reads m doc a :=
  ⟨fun depth hdepth => h.stream depth (Nat.le_trans hnm hdepth), h.buffered⟩

lemma mapOption {f : α → Option β} {b : β} (h : d.Reads n doc a) (hf : f a = some b) :
    (d.mapOption f).Reads n doc b := by
  constructor
  · intro depth hdepth rest hrest
    show (d.stream depth >>= fun a => shaped (f a)) (doc.write ++ rest) = _
    rw [bind_run (h.stream depth hdepth rest hrest), hf]
    rfl
  · show (d.buffered doc).bind f = _
    rw [h.buffered]
    exact hf

lemma map (h : d.Reads n doc a) (f : α → β) : (d.map f).Reads n doc (f a) :=
  h.mapOption rfl

/-! ## Scalars -/

lemma bool (b : Bool) : Decoder.bool.Reads n (.bool b) b := by
  cases b
  · exact ⟨fun _ _ _ _ => rfl, rfl⟩
  · exact ⟨fun _ _ _ _ => rfl, rfl⟩

lemma string (s : String) : Decoder.string.Reads n (.str s) s := by
  constructor
  · intro depth _ rest _
    show Reader.string ((quote s).tail ++ rest) = _
    exact string_quote s rest
  · rfl

lemma number {x : Number} (h : Numeral x.write x) : Decoder.number.Reads n (.num x) x := by
  have key : ∀ {text : List UInt8}, Numeral text x → ∀ depth,
      Takes (Decoder.number.stream depth) text x := by
    intro text hx depth rest hrest
    rcases hx with h | ⟨hb, h⟩
    · exact h rest hrest
    · show (peekToken >>= _) _ = _
      rw [List.cons_append, bind_run (peekToken_digit hb)]
      simp only [ne_of_isDigit hb (show isDigit (byte '-') = false from rfl), hb,
        Bool.false_eq_true, if_false, if_true]
      exact h rest hrest
  exact ⟨fun depth _ => key h depth, rfl⟩

/-- An integer within the bounds of a decoder, which keep it within those of a document. -/
lemma integer {low high i : ℤ} (hlow : -2 ^ 63 ≤ low) (hhigh : high < 2 ^ 64) (hi : low ≤ i)
    (hi' : i ≤ high) : (Decoder.integer low high).Reads n (.num (.int i)) i := by
  refine (number (numeral_int (by omega) (by omega))).mapOption ?_
  exact if_pos ⟨hi, hi'⟩

lemma int64 (i : Int64) : Decoder.int64.Reads n (.num (.int i.toInt)) i := by
  have hint : (Decoder.integer (-2 ^ 63) (2 ^ 63 - 1)).Reads n (.num (.int i.toInt)) i.toInt :=
    integer (by decide) (by decide) i.le_toInt (by have := i.toInt_lt; omega)
  have := hint.map Int64.ofInt
  rwa [Int64.ofInt_toInt] at this

lemma uint64 (i : UInt64) : Decoder.uint64.Reads n (.num (.int i.toNat)) i := by
  have hint : (Decoder.integer 0 (2 ^ 64 - 1)).Reads n (.num (.int i.toNat)) i.toNat :=
    integer (by decide) (by decide) (by omega) (by have := i.toNat_lt; omega)
  have := hint.map fun n => UInt64.ofNat n.toNat
  rwa [Int.toNat_natCast, UInt64.ofNat_toNat] at this

lemma uint32 (i : UInt32) : Decoder.uint32.Reads n (.num (.int i.toNat)) i := by
  have hint : (Decoder.integer 0 (2 ^ 32 - 1)).Reads n (.num (.int i.toNat)) i.toNat :=
    integer (by decide) (by decide) (by omega) (by have := i.toNat_lt; omega)
  have := hint.map fun n => UInt32.ofNat n.toNat
  rwa [Int.toNat_natCast, UInt32.ofNat_toNat] at this

lemma uint8 (i : UInt8) : Decoder.uint8.Reads n (.num (.int i.toNat)) i := by
  have hint : (Decoder.integer 0 255).Reads n (.num (.int i.toNat)) i.toNat :=
    integer (by decide) (by decide) (by omega) (by have := i.toNat_lt; omega)
  have := hint.map fun n => UInt8.ofNat n.toNat
  rwa [Int.toNat_natCast, UInt8.ofNat_toNat] at this

lemma any_num {x : Number} (h : Numeral x.write x) : Decoder.any.Reads n (.num x) (.num x) :=
  ⟨fun depth _ => h.document depth, rfl⟩

lemma any_str (s : String) : Decoder.any.Reads n (.str s) (.str s) := by
  constructor
  · intro depth _ rest _
    show document depth (34 :: ((quote s).tail ++ rest)) = _
    unfold document
    rw [bind_run (peekToken_cons rfl)]
    show (Document.str <$> Reader.string : Reader Document) ((quote s).tail ++ rest) = _
    rw [map_run (string_quote s rest)]
  · rfl

/-! ## Lists -/

/-- An item of a list of known length is read back. -/
lemma itemOf_write {r : Reader α} (h : Takes r doc.write a) (first : Bool) {rest : List UInt8}
    (hrest : Stops rest) :
    itemOf first r ((if first then [] else [44]) ++ (doc.write ++ rest)) = .ok (a, rest) := by
  obtain ⟨b, t, hwrite, hb⟩ := doc.exists_write
  have hr := h rest hrest
  rw [hwrite, List.cons_append] at hr ⊢
  unfold itemOf
  rw [bind_run (hasItem_item hb first), if_pos rfl, hr]

lemma list {γ : Type} (xs : List γ) {f : γ → Document} {g : γ → α}
    (h : ∀ x ∈ xs, d.Reads n (f x) (g x)) :
    (Decoder.list d).Reads (n + 1) (.arr (xs.map f)) (xs.map g) := by
  constructor
  · intro depth hdepth rest hrest
    obtain ⟨depth, rfl⟩ := Nat.exists_eq_add_of_le' (Nat.le_of_add_left_le hdepth)
    have hitems : List.Forall₂ (fun doc b => Takes (d.stream depth) doc.write b)
        (xs.map f) (xs.map g) := by
      rw [List.forall₂_map_left_iff, List.forall₂_map_right_iff, List.forall₂_same]
      exact fun x hx => (h x hx).stream depth (Nat.le_of_succ_le_succ hdepth)
    exact items_writeItems hitems
  · show (xs.map f).mapM d.buffered = _
    induction xs with
    | nil => rfl
    | cons x xs ih =>
      rw [List.map_cons, List.mapM_cons, (h x List.mem_cons_self).buffered,
        ih fun y hy => h y (List.mem_cons_of_mem _ hy)]
      rfl

lemma pair {doc' : Document} {b : β} (hd : d.Reads n doc a) (he : e.Reads n doc' b) :
    (Decoder.pair d e).Reads (n + 1) (.arr [doc, doc']) (a, b) := by
  constructor
  · intro depth hdepth rest hrest
    obtain ⟨depth, rfl⟩ := Nat.exists_eq_add_of_le' (Nat.le_of_add_left_le hdepth)
    have hdepth := Nat.le_of_succ_le_succ hdepth
    have hfirst : itemOf true (d.stream depth) (doc.write ++ 44 :: (doc'.write ++ 93 :: rest)) =
        .ok (a, 44 :: (doc'.write ++ 93 :: rest)) :=
      itemOf_write (hd.stream depth hdepth) true (stops_comma _)
    have hsecond : itemOf false (e.stream depth) (44 :: (doc'.write ++ 93 :: rest)) =
        .ok (b, 93 :: rest) :=
      itemOf_write (he.stream depth hdepth) false (stops_bracket rest)
    have htext : writeItems true [doc, doc'] ++ rest =
        doc.write ++ 44 :: (doc'.write ++ 93 :: rest) := by
      simp [writeItems]
    show (itemOf true (d.stream depth) >>= fun a => itemOf false (e.stream depth) >>= fun b =>
      endList >>= fun _ => pure (a, b)) (writeItems true [doc, doc'] ++ rest) = _
    rw [htext, bind_run hfirst, bind_run hsecond, bind_run endList_cons]
    rfl
  · show (do return (← d.buffered doc, ← e.buffered doc')) = _
    rw [hd.buffered, he.buffered]
    rfl

/-! ## Tagged values -/

lemma tagStream_quote {variants : String → Option (Variant α)} {tag : String} {v : Variant α}
    (h : variants tag = some v) (depth : ℕ) : Takes (tagStream variants depth) (quote tag) v := by
  intro rest _
  show (Reader.string >>= fun name => shaped (variants name)) ((quote tag).tail ++ rest) = _
  rw [bind_run (string_quote tag rest), h]
  rfl

section Tagged
variable {tagKey tag contentKey : String} {variants : Variants α} {v : Variant α}

lemma taggedMember_tag (h : variants.lookup tag = some v) (depth : ℕ) :
    Takes (taggedMember tagKey contentKey (variants.lookup ·) depth .nothing tagKey)
      (58 :: (Document.str tag).write) (.tag v) := by
  unfold taggedMember
  rw [if_pos (by simp)]
  exact ((tagStream_quote h depth).map Tagged.tag).colon

lemma taggedMember_content (hkeys : tagKey ≠ contentKey) {depth : ℕ}
    (h : Takes (v.content.stream depth) doc.write a) :
    Takes (taggedMember tagKey contentKey (variants.lookup ·) depth (.tag v) contentKey)
      (58 :: doc.write) (.both a) := by
  unfold taggedMember
  rw [if_neg (by simpa using hkeys.symm), if_pos (by simp)]
  exact (h.map Tagged.both).colon

lemma tagged_stream {ms : List (String × Document)} {t : Tagged α} {depth : ℕ}
    (hsteps : Steps (taggedMember tagKey contentKey (variants.lookup ·) depth) .nothing ms t)
    (ht : t.value? = some a) :
    Takes ((Decoder.tagged tagKey contentKey variants).stream (depth + 1)) (Document.obj ms).write
      a := by
  intro rest _
  show (members Tagged.nothing (taggedMember tagKey contentKey (variants.lookup ·) depth) >>=
    fun t => shaped t.value?) (writeMembers true ms ++ rest) = _
  rw [bind_run (members_writeMembers hsteps), ht]
  rfl

/-- A tagged value with content. -/
lemma tagged (hkeys : tagKey ≠ contentKey) (hv : variants.lookup tag = some v)
    (h : v.content.Reads n doc a) : (Decoder.tagged tagKey contentKey variants).Reads (n + 1)
      (.obj [(tagKey, .str tag), (contentKey, doc)]) a := by
  constructor
  · intro depth hdepth
    obtain ⟨depth, rfl⟩ := Nat.exists_eq_add_of_le' (Nat.le_of_add_left_le hdepth)
    have hcontent := h.stream depth (Nat.le_of_succ_le_succ hdepth)
    refine tagged_stream (t := .both a) (.member (taggedMember_tag hv depth) ?_) rfl
    exact .member (taggedMember_content hkeys hcontent) (.done _)
  · show (do
      let s ← List.foldlM (taggedMemberBuffered tagKey contentKey (variants.lookup ·)) .nothing
        [(tagKey, .str tag), (contentKey, doc)]
      s.value?) = _
    simp [taggedMemberBuffered, tagBuffered, hv, hkeys.symm, h.buffered, Tagged.value?]

/-- A tagged value without content. -/
lemma bare (hv : variants.lookup tag = some v) (h : v.bare = some a) :
    (Decoder.tagged tagKey contentKey variants).Reads 1 (.obj [(tagKey, .str tag)]) a := by
  constructor
  · intro depth hdepth
    obtain ⟨depth, rfl⟩ := Nat.exists_eq_add_of_le' hdepth
    exact tagged_stream (.member (taggedMember_tag hv depth) (.done _)) h
  · show (do
      let s ← List.foldlM (taggedMemberBuffered tagKey contentKey (variants.lookup ·)) .nothing
        [(tagKey, .str tag)]
      s.value?) = _
    simp [taggedMemberBuffered, tagBuffered, hv, h, Tagged.value?]

end Tagged
end Reads

/-! ## Records -/

/-- The field takes the document into the fields so far, in both ways. -/
structure Field.Reads (f : Field σ) (n : ℕ) (doc : Document) (s s' : σ) : Prop where
  stream : ∀ depth, n ≤ depth → Takes (f.stream depth s) doc.write s'
  buffered : f.buffered doc s = some s'

/-- Members that fill fields which were empty, one after the other. -/
inductive Fills (fs : List (Field σ)) (n : ℕ) : σ → List (String × Document) → σ → Prop
  | done (s : σ) : Fills fs n s [] s
  | field {s₁ s₂ s₃ : σ} {key : String} {doc : Document} {ms : List (String × Document)}
      {f : Field σ} (hf : fs.find? (·.key == key) = some f) (habsent : f.present s₁ = false)
      (hread : f.Reads n doc s₁ s₂) (hrest : Fills fs n s₂ ms s₃) :
      Fills fs n s₁ ((key, doc) :: ms) s₃

lemma Reads.field {d : Decoder α} {n : ℕ} {doc : Document} {a : α} (h : d.Reads n doc a)
    (key : String) (get : σ → Option α) (set : α → σ → σ) (optional : Bool) (s : σ) :
    (Field.of key d get set optional).Reads n doc s (set a s) := by
  constructor
  · intro depth hdepth
    exact (h.stream depth hdepth).map fun a => set a s
  · show (d.buffered doc).map _ = _
    rw [h.buffered]
    rfl

lemma Fills.steps {fs : List (Field σ)} {n : ℕ} {s s' : σ} {ms : List (String × Document)}
    (h : Fills fs n s ms s') {depth : ℕ} (hdepth : n ≤ depth) :
    Steps (recordMember fs depth) s ms s' := by
  induction h with
  | done s => exact .done s
  | field hf habsent hread _ ih =>
    refine .member ?_ ih
    unfold recordMember
    simp only [hf, habsent, Bool.false_eq_true, if_false]
    exact (hread.stream depth hdepth).colon

lemma Fills.buffered {fs : List (Field σ)} {n : ℕ} {s s' : σ} {ms : List (String × Document)}
    (h : Fills fs n s ms s') : recordBuffered fs ms s = some s' := by
  induction h with
  | done s => rfl
  | field hf habsent hread _ ih =>
    rw [recordBuffered]
    simp only [hf, habsent, Bool.false_eq_true, if_false, hread.buffered, Option.bind_some, ih]

/-- A record whose members fill its fields. -/
lemma Fills.reads {fs : List (Field σ)} {n : ℕ} {s s' : σ} {ms : List (String × Document)}
    (h : Fills fs n s ms s') : (Decoder.fields s fs).Reads (n + 1) (.obj ms) s' := by
  constructor
  · intro depth hdepth rest _
    obtain ⟨depth, rfl⟩ := Nat.exists_eq_add_of_le' (Nat.le_of_add_left_le hdepth)
    exact members_writeMembers (h.steps (Nat.le_of_succ_le_succ hdepth))
  · exact h.buffered

section Optional
variable {d : Decoder α} {e : Decoder β} {n : ℕ} {doc doc' : Document} {a : α} {b : β}
  {k k' : String}

/-- The fields of a record of two, the second of which may be absent. -/
abbrev optionalFields (k : String) (d : Decoder α) (k' : String) (e : Decoder β) :
    List (Field (Option α × Option β)) :=
  [.of k d (·.1) (fun a s => (some a, s.2)) false, .of k' e (·.2) (fun b s => (s.1, some b)) true]

lemma Reads.recordOptional_some (hkeys : k ≠ k') (h : d.Reads n doc a) (h' : e.Reads n doc' b) :
    (Decoder.recordOptional k d k' e).Reads (n + 1) (.obj [(k, doc), (k', doc')]) (a, some b) := by
  have hfills : Fills (optionalFields k d k' e) n (none, none) [(k, doc), (k', doc')]
      (some a, some b) := by
    have hfirst := h.field k (·.1) (fun a s => (some a, s.2)) false
      ((none, none) : Option α × Option β)
    have hsecond := h'.field k' (·.2) (fun b s => (s.1, some b)) true
      ((some a, none) : Option α × Option β)
    refine .field ?_ rfl hfirst (.field ?_ rfl hsecond (.done _))
    · simp [Field.of]
    · simp [Field.of, hkeys]
  exact hfills.reads.mapOption rfl

lemma Reads.recordOptional_none (h : d.Reads n doc a) :
    (Decoder.recordOptional k d k' e).Reads (n + 1) (.obj [(k, doc)]) (a, none) := by
  have hfills : Fills (optionalFields k d k' e) n (none, none) [(k, doc)] (some a, none) := by
    have hfirst := h.field k (·.1) (fun a s => (some a, s.2)) false
      ((none, none) : Option α × Option β)
    refine .field ?_ rfl hfirst (.done _)
    simp [Field.of]
  exact hfills.reads.mapOption rfl

end Optional

section Records
variable {γ : Type} {d : Decoder α} {e : Decoder β} {g : Decoder γ} {n : ℕ}
  {doc doc' doc'' : Document} {a : α} {b : β} {c : γ} {k k' k'' : String}

lemma Reads.record₁ (h : d.Reads n doc a) :
    (Decoder.record₁ k d).Reads (n + 1) (.obj [(k, doc)]) a := by
  have hfield := h.field k id (fun a _ => some a) false (none : Option α)
  have hfills : Fills [.of k d id (fun a _ => some a) false] n none [(k, doc)] (some a) := by
    refine .field ?_ rfl hfield (.done _)
    simp [Field.of]
  exact hfills.reads.mapOption rfl

lemma Reads.record₂ (hkeys : k ≠ k') (h : d.Reads n doc a) (h' : e.Reads n doc' b) :
    (Decoder.record₂ k d k' e).Reads (n + 1) (.obj [(k, doc), (k', doc')]) (a, b) := by
  have hfirst := h.field k (·.1) (fun a s => (some a, s.2)) false
    ((none, none) : Option α × Option β)
  have hsecond := h'.field k' (·.2) (fun b s => (s.1, some b)) false
    ((some a, none) : Option α × Option β)
  have hfills : Fills [.of k d (·.1) (fun a s => (some a, s.2)) false,
      .of k' e (·.2) (fun b s => (s.1, some b)) false] n ((none, none) : Option α × Option β)
      [(k, doc), (k', doc')] (some a, some b) := by
    refine .field ?_ rfl hfirst (.field ?_ rfl hsecond (.done _))
    · simp [Field.of]
    · simp [Field.of, hkeys]
  exact hfills.reads.mapOption rfl

lemma Reads.record₃ (hkeys : k ≠ k' ∧ k ≠ k'' ∧ k' ≠ k'') (h : d.Reads n doc a)
    (h' : e.Reads n doc' b) (h'' : g.Reads n doc'' c) :
    (Decoder.record₃ k d k' e k'' g).Reads (n + 1)
      (.obj [(k, doc), (k', doc'), (k'', doc'')]) (a, b, c) := by
  have hfirst := h.field k (·.1) (fun a s => (some a, s.2)) false
    ((none, none, none) : Option α × Option β × Option γ)
  have hsecond := h'.field k' (·.2.1) (fun b s => (s.1, some b, s.2.2)) false
    ((some a, none, none) : Option α × Option β × Option γ)
  have hthird := h''.field k'' (·.2.2) (fun c s => (s.1, s.2.1, some c)) false
    ((some a, some b, none) : Option α × Option β × Option γ)
  have hfills : Fills [.of k d (·.1) (fun a s => (some a, s.2)) false,
      .of k' e (·.2.1) (fun b s => (s.1, some b, s.2.2)) false,
      .of k'' g (·.2.2) (fun c s => (s.1, s.2.1, some c)) false] n
      ((none, none, none) : Option α × Option β × Option γ)
      [(k, doc), (k', doc'), (k'', doc'')] (some a, some b, some c) := by
    refine .field ?_ rfl hfirst (.field ?_ rfl hsecond (.field ?_ rfl hthird (.done _)))
    · simp [Field.of]
    · simp [Field.of, hkeys.1]
    · simp [Field.of, hkeys.2.1, hkeys.2.2]
  exact hfills.reads.mapOption rfl

end Records

/-! ## Names -/

/-- A value that is written as its name. -/
lemma Reads.enumeration {values : String → Option α} {name : String} {a : α} {n : ℕ}
    (h : values name = some a) : (Decoder.enumeration values).Reads n (.str name) a := by
  have hvariant : (values name).map Variant.alone = some (Variant.alone a) := by rw [h]; rfl
  constructor
  · intro depth _ rest hrest
    show (tagStream (fun name => (values name).map Variant.alone) depth >>=
      fun v => shaped v.bare) (quote name ++ rest) = _
    rw [bind_run (tagStream_quote hvariant depth rest hrest)]
    rfl
  · show (tagBuffered (fun name => (values name).map Variant.alone) (.str name)).bind _ = _
    rw [tagBuffered, hvariant]
    rfl

end Decoder
end WorkerHost.Json
