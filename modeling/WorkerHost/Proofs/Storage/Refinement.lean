import WorkerHost.Proofs.Storage.Mirror

/-!
# A store is a map of values

Seen from outside a store is a finite map from keys to values, and what a value went through on
its way to the disk and back does not show. `Store.Operation.expect` is the map after an
operation, `Store.Refines` says that a store and its database behave like a map, and
`Store.Opened.run_refines_map` that they do after any run.
-/

namespace WorkerHost.Store

/-! ## The map -/

/-- What a key stands for: a record that was there when the store was opened, or the graph of a
value as it was when it was set. -/
inductive Content where
  | found (record : StoredValue)
  | graph (h : Heap) (v : Value)

/-- What can be done with a store. Heaps differ from one operation to the next. -/
inductive Operation where
  | set (h : Heap) (key : String) (v : Value)
  | delete (key : String)
  | clear
  | get (h : Heap) (key : String)
  | keys
  | sync (health : Health)

namespace Operation

/-- The store and its database after an operation, also after one that fails. -/
def run (p : Store × Database) : Operation → Store × Database
  | .set h key v =>
    match p.1.set h key v with
    | .ok s => (s, p.2)
    | .error _ => p
  | .delete key => ((p.1.delete key).2, p.2)
  | .clear => (p.1.clear, p.2)
  | .get _ _ | .keys => p
  | .sync health => (p.1.sync p.2 health).2

/-- The map after an operation. A value that cannot be encoded is not set. -/
def expect (m : Dict Content) : Operation → Dict Content
  | .set h key v =>
    match StoredValue.ofValue h v with
    | .ok _ => m.insert key (.graph h v)
    | .error _ => m
  | .delete key => m.erase key
  | .clear => .empty
  | .get _ _ | .keys | .sync _ => m

/-- What is set fits the numbers of a wire form, and its floats are read back from their texts. -/
def Storable : Operation → Prop
  | .set h _ v => (h.objectsFrom v).encard ≤ 2 ^ 32 ∧ ∀ x, h.Reaches v (.float x) → Json.ReadsBack x
  | _ => True

end Operation

/-! ## Agreement of the answers -/

/-- Answers that differ at most in the payload of a NaN. -/
def SameAnswer (a b : Except CodecError (Option Value × Heap)) : Prop :=
  a.map (fun p => (p.1.map Value.quiet, p.2.quiet)) =
    b.map fun p => (p.1.map Value.quiet, p.2.quiet)

/-- The answer to a `get` is the one that the map gives. -/
def Answers (h₀ : Heap) (a : Except CodecError (Option Value × Heap)) : Option Content → Prop
  | none => a = .ok (none, h₀)
  | some (.found record) => SameAnswer a ((record.toValue h₀).map fun p => (some p.1, p.2))
  | some (.graph h v) => ∃ v' h', a = .ok (some v', h') ∧ Restores h v h' v'

/-- How a `sync` ends. -/
structure Synced (s : Store) (db : Database) (health : Health) (s' : Store) (db' : Database)
    (r : Except StorageError Unit) : Prop where
  /-- it succeeds if the database does what is asked of it -/
  succeeds : r = .ok () ↔ (s.queued = [] ∨ health.commits = true) ∧ health.loads = true
  /-- it never fails for a record -/
  fails : ∀ e, r = .error e → e = .database
  /-- a success empties the queue, and the disk holds exactly the cache -/
  empties : r = .ok () → s'.queued = [] ∧ db'.load s'.name = .ok s'.cache
  /-- a failure before anything is written changes nothing -/
  unchanged : s.queued = [] ∨ health.commits = false → r ≠ .ok () → s' = s ∧ db' = db
  /-- whatever happens, the keys stay -/
  keys : s'.keys = s.keys
  /-- whatever happens, the values stay -/
  get : ∀ h k, SameAnswer (s'.get h k) (s.get h k)
  /-- and without a NaN that has a payload, down to the last bit -/
  exact : ∀ k, (∀ r, s.cache.get? k = some r → r.quiet = r) → ∀ h, s'.get h k = s.get h k

/-- The store and its database behave like the map. -/
structure Refines (m : Dict Content) (s : Store) (db : Database) : Prop where
  mirrors : Mirrors s db
  keys : s.keys = m.keys
  get : ∀ h k, Answers h (s.get h k) (m.get? k)
  sync : ∀ health, ∃ r s' db', s.sync db health = (r, s', db') ∧ Synced s db health s' db' r
  set : ∀ h k v e, StoredValue.ofValue h v = .error e →
    s.set h k v = .error e ∧ (Operation.set h k v).run (s, db) = (s, db)

/-! ## One step -/

/-- The record holds the content. -/
def Content.HeldIn (r : StoredValue) : Content → Prop
  | .found record => record.Settles r
  | .graph h v => (h.objectsFrom v).encard ≤ 2 ^ 32 ∧
      ∃ record, StoredValue.ofValue h v = .ok record ∧ record.Settles r

lemma Content.HeldIn.settles {c : Content} {r r' : StoredValue} (hc : c.HeldIn r)
    (hr : r.Settles r') : c.HeldIn r' := by
  cases c with
  | found record => exact StoredValue.Settles.trans hc hr
  | graph h v =>
    obtain ⟨hsize, record, hrecord, hsettles⟩ := hc
    exact ⟨hsize, record, hrecord, hsettles.trans hr⟩

/-- The invariant of a run: the cache mirrors the database and holds the map. -/
structure Tracks (m : Dict Content) (s : Store) (db : Database) : Prop where
  mirrors : Mirrors s db
  holds : m.Rel (fun c r => c.HeldIn r) s.cache

variable {m : Dict Content} {s s' : Store} {db db' : Database}

lemma Opened.tracks (h : Opened s db) : Tracks (s.cache.map .found) s db :=
  ⟨h.mirrors, .map_left Content.found StoredValue.Settles.refl s.cache⟩

/-- Every operation keeps the invariant. -/
lemma Tracks.run (ht : Tracks m s db) {op : Operation} (hop : op.Storable) :
    Tracks (op.expect m) (op.run (s, db)).1 (op.run (s, db)).2 := by
  obtain ⟨hm, hholds⟩ := ht
  cases op with
  | set h key v =>
    obtain ⟨hsize, hfloats⟩ := hop
    simp only [Operation.run, Operation.expect]
    cases hrecord : StoredValue.ofValue h v with
    | error e =>
      have hset : s.set h key v = .error e := by
        rw [Store.set, hrecord]
        rfl
      rw [hset]
      exact ⟨hm, hholds⟩
    | ok record =>
      have hset : s.set h key v = .ok { s with
          cache := s.cache.insert key record
          queued := s.queued ++ [.set key record.write] } := by
        rw [Store.set, hrecord]
        rfl
      have hcontent : (Content.graph h v).HeldIn record := ⟨hsize, record, hrecord, .refl record⟩
      have hm' := hm.set hfloats hset
      rw [hset]
      exact ⟨hm', hholds.insert key hcontent⟩
  | delete key => exact ⟨hm.delete key, hholds.erase key⟩
  | clear => exact ⟨hm.clear, .empty⟩
  | get h key => exact ⟨hm, hholds⟩
  | keys => exact ⟨hm, hholds⟩
  | sync health =>
    refine ⟨hm.sync health, ?_⟩
    obtain ⟨-, -, hsync⟩ | ⟨cache, db', -, -, -, hrel, hsync⟩ := hm.sync_cases health
    · simp only [Operation.run, Operation.expect, hsync]
      exact hholds
    -- a cache that was read anew holds what the texts leave of the records
    · simp only [Operation.run, Operation.expect, hsync]
      split
      · exact hholds.comp hrel fun c r r' => Content.HeldIn.settles
      · exact hholds

/-! ## What the invariant says about answers -/

/-- The answer for a record. -/
def answerOf (h : Heap) (r : StoredValue) : Except CodecError (Option Value × Heap) :=
  (r.toValue h).map fun p => (some p.1, p.2)

lemma get_of_none {h : Heap} {k : String} (hk : s.cache.get? k = none) :
    s.get h k = .ok (none, h) := by
  rw [Store.get, hk]

lemma get_of_some {h : Heap} {k : String} {r : StoredValue} (hk : s.cache.get? k = some r) :
    s.get h k = answerOf h r := by
  rw [Store.get, hk, answerOf]
  dsimp only
  cases r.toValue h <;> rfl

/-- What a text leaves of a record shows in the payload of a NaN only. -/
lemma sameAnswer_of_settles {r r' : StoredValue} (hr : r.Settles r') (h : Heap) :
    SameAnswer (answerOf h r') (answerOf h r) := by
  rcases hr with rfl | rfl
  · rfl
  · have hquiet := StoredValue.toValue_quiet r h
    unfold SameAnswer answerOf
    revert hquiet
    cases r.quiet.toValue h <;> cases r.toValue h <;> simp [Except.map]

/-- A record that holds a content answers for it. -/
lemma answers_of_heldIn {c : Content} {r : StoredValue} (hc : c.HeldIn r) (h : Heap) :
    Answers h (answerOf h r) (some c) := by
  cases c with
  | found record => exact sameAnswer_of_settles hc h
  | graph h₁ v =>
    obtain ⟨hsize, record, hrecord, hsettles⟩ := hc
    obtain ⟨v', h', hvalue, hrestores⟩ := StoredValue.restores hrecord hsettles hsize h
    refine ⟨v', h', ?_, hrestores⟩
    rw [answerOf, hvalue]
    rfl

lemma Tracks.answers (ht : Tracks m s db) (h : Heap) (k : String) :
    Answers h (s.get h k) (m.get? k) := by
  have hk := ht.holds.get? k
  cases hm : m.get? k with
  | none =>
    rw [hm] at hk
    cases hs : s.cache.get? k with
    | none => exact get_of_none hs
    | some r => rw [hs] at hk; cases hk
  | some c =>
    rw [hm] at hk
    cases hs : s.cache.get? k with
    | none => rw [hs] at hk; cases hk
    | some r =>
      rw [hs] at hk
      cases hk with
      | some hc =>
        rw [get_of_some hs]
        exact answers_of_heldIn hc h

/-- Where the records of two stores settle, so do their answers. -/
lemma sameAnswer_of_rel (hrel : s.cache.Rel StoredValue.Settles s'.cache) (h : Heap) (k : String) :
    SameAnswer (s'.get h k) (s.get h k) ∧
      ((∀ r, s.cache.get? k = some r → r.quiet = r) → s'.get h k = s.get h k) := by
  have hk := hrel.get? k
  cases hs : s.cache.get? k with
  | none =>
    rw [hs] at hk
    cases hs' : s'.cache.get? k with
    | none =>
      rw [get_of_none hs, get_of_none hs']
      exact ⟨rfl, fun _ => rfl⟩
    | some r' => rw [hs'] at hk; cases hk
  | some r =>
    rw [hs] at hk
    cases hs' : s'.cache.get? k with
    | none => rw [hs'] at hk; cases hk
    | some r' =>
      rw [hs'] at hk
      cases hk with
      | some hsettles =>
        rw [get_of_some hs, get_of_some hs']
        refine ⟨sameAnswer_of_settles hsettles h, fun hquiet => ?_⟩
        have hr := hquiet r rfl
        rcases hsettles with rfl | rfl
        · rfl
        · rw [hr]

/-- A sync of a store that mirrors its database. -/
lemma Mirrors.synced (hm : Mirrors s db) (health : Health) :
    ∃ r s' db', s.sync db health = (r, s', db') ∧ Synced s db health s' db' r := by
  have hsame : ∀ s' : Store, s.cache.Rel StoredValue.Settles s'.cache →
      (∀ h k, SameAnswer (s'.get h k) (s.get h k)) ∧
        ∀ k, (∀ r, s.cache.get? k = some r → r.quiet = r) → ∀ h, s'.get h k = s.get h k :=
    fun s' hrel => ⟨fun h k => (sameAnswer_of_rel hrel h k).1,
      fun k hquiet h => (sameAnswer_of_rel hrel h k).2 hquiet⟩
  have hrefl : s.cache.Rel StoredValue.Settles s.cache := .refl StoredValue.Settles.refl _
  rcases hm.sync_cases health with ⟨hqueued, hcommits, hsync⟩ |
    ⟨cache, db', hempty, hwritten, hload, hrel, hsync⟩
  · refine ⟨_, _, _, hsync, ?_, ?_, ?_, ?_, rfl, (hsame s hrefl).1, (hsame s hrefl).2⟩
    · simp [hqueued, hcommits]
    · intro e heq
      cases heq
      rfl
    · intro heq
      cases heq
    · exact fun _ _ => ⟨rfl, rfl⟩
  · cases hloads : health.loads with
    | true =>
      rw [hloads] at hsync
      refine ⟨_, _, _, hsync, ?_, ?_, ?_, ?_, hrel.keys.symm, (hsame _ hrel).1, (hsame _ hrel).2⟩
      · simp [hwritten, hloads]
      · intro e heq
        cases heq
      · exact fun _ => ⟨rfl, hload⟩
      · exact fun _ hr => absurd rfl hr
    | false =>
      rw [hloads] at hsync
      have hkept : s.cache.Rel StoredValue.Settles { s with queued := [] }.cache := hrefl
      refine ⟨_, _, _, hsync, ?_, ?_, ?_, ?_, rfl, (hsame _ hkept).1, (hsame _ hkept).2⟩
      · simp [hloads]
      · intro e heq
        cases heq
        rfl
      · intro heq
        cases heq
      · intro hbefore _
        have hqueued : s.queued = [] := by
          rcases hwritten with hqueued | hcommits
          · exact hqueued
          · simpa [hcommits] using hbefore
        exact ⟨by rw [← hqueued], hempty hqueued⟩

lemma Tracks.toRefines (ht : Tracks m s db) : Refines m s db where
  mirrors := ht.mirrors
  keys := ht.holds.keys.symm
  get := ht.answers
  sync := ht.mirrors.synced
  set := by
    intro h k v e he
    have hset : s.set h k v = .error e := by
      rw [Store.set, he]
      rfl
    exact ⟨hset, by simp only [Operation.run, hset]⟩

/-! ## Runs -/

/-- A store that has been opened behaves like a map through every run of operations, whatever the
database does on the way: like the map that held what was found, changed by each operation. -/
theorem Opened.run_refines_map {s₀ : Store} {db₀ : Database} (hopened : Opened s₀ db₀)
    (ops : List Operation) (hops : ∀ op ∈ ops, op.Storable) :
    Refines (ops.foldl Operation.expect (s₀.cache.map .found))
      (ops.foldl Operation.run (s₀, db₀)).1 (ops.foldl Operation.run (s₀, db₀)).2 := by
  suffices hrun : ∀ (m : Dict Content) (p : Store × Database), Tracks m p.1 p.2 →
      Tracks (ops.foldl Operation.expect m) (ops.foldl Operation.run p).1
        (ops.foldl Operation.run p).2 from (hrun _ _ hopened.tracks).toRefines
  induction ops with
  | nil => exact fun m p ht => ht
  | cons op ops ih =>
    intro m p ht
    rw [List.foldl_cons, List.foldl_cons]
    exact ih (fun o ho => hops o (List.mem_cons_of_mem _ ho)) _ _
      (ht.run (hops op List.mem_cons_self))

/-- A run in which a sync fails before its commit and one after it, and a key is set again after
it was deleted and everything was cleared. -/
def failedSyncs : List Operation :=
  [.set Wire.sharedLoop "loop" (.object 0), .set .empty "half" (.float ⟨0x3FF8000000000000⟩),
    .sync ⟨false, true⟩, .delete "half", .sync ⟨true, false⟩, .clear,
    .set .empty "half" (.float ⟨0x3FF8000000000000⟩), .sync .good]

lemma storable_of_mem_failedSyncs : ∀ op ∈ failedSyncs, op.Storable := by
  have hloop : (Operation.set Wire.sharedLoop "loop" (.object 0)).Storable := by
    refine ⟨Wire.encard_objectsFrom_sharedLoop, fun x hx hfinite => ?_⟩
    rcases Heap.reaches_iff.1 hx with hx | ⟨r, hr, hx⟩
    · cases hx
    · rcases Wire.objectsFrom_sharedLoop hr with rfl | rfl
      · have hnan : x = ⟨0x7FF8000000000001⟩ := by
          rw [Wire.children_sharedLoop.1] at hx
          simpa using hx
        rw [hnan] at hfinite
        cases hfinite
      · rw [Wire.children_sharedLoop.2] at hx
        simp at hx
  have hhalf : (Operation.set .empty "half" (.float ⟨0x3FF8000000000000⟩)).Storable := by
    have hnone : Heap.empty.objectsFrom (.float ⟨0x3FF8000000000000⟩) = ∅ :=
      Heap.objectsFrom_eq_empty (by simp)
    refine ⟨by simp [hnone], fun x hx => ?_⟩
    rcases Heap.reaches_iff.1 hx with hx | ⟨r, hr, -⟩
    · cases hx
      exact Json.Reader.readsBack_threeHalves
    · rw [hnone] at hr
      exact hr.elim
  intro op hop
  simp only [failedSyncs, List.mem_cons, List.not_mem_nil, or_false] at hop
  rcases hop with rfl | rfl | rfl | rfl | rfl | rfl | rfl | rfl
  · exact hloop
  · exact hhalf
  · trivial
  · trivial
  · trivial
  · trivial
  · exact hhalf
  · trivial

theorem Opened.run_refines_map_failedSyncs :
    Opened ⟨"app", [], .empty, []⟩ (Database.empty.commit "app" []) ∧
      (∀ op ∈ failedSyncs, op.Storable) ∧
      Refines (failedSyncs.foldl Operation.expect ((Dict.empty : Dict StoredValue).map .found))
        (failedSyncs.foldl Operation.run
          (⟨"app", [], .empty, []⟩, Database.empty.commit "app" [])).1
        (failedSyncs.foldl Operation.run
          (⟨"app", [], .empty, []⟩, Database.empty.commit "app" [])).2 := by
  have hopened : Opened ⟨"app", [], .empty, []⟩ (Database.empty.commit "app" []) :=
    ⟨rfl, Database.load_eq_ok_iff.2 .nil⟩
  exact ⟨hopened, storable_of_mem_failedSyncs,
    hopened.run_refines_map failedSyncs storable_of_mem_failedSyncs⟩

end WorkerHost.Store
