import WorkerHost.Proofs.Outcome
import WorkerHost.Proofs.Storage.Record
import WorkerHost.Storage.Database
import WorkerHost.Storage.Store

/-!
# The cache mirrors the database

A table stands for a dictionary of records if it has the same keys and each text in it is read as
the record. Writing to the table and writing to the dictionary then come to the same:
`Database.load_commit`.

`Store.Mirrors` is the invariant of an open store: the cache holds the records of the table on
disk after the queued writes, applied in order. Every operation keeps it, a failed one too, and it
decides what a `sync` can do: `Store.Mirrors.sync_cases`.

A record in the cache was made from a value, the record on disk was read from a text. That is the
one way in which the two may differ: `StoredValue.Settles`.
-/

namespace WorkerHost

/-! ## Tables of records -/

/-- The table has the keys of the dictionary, and under each of them a text of its record. -/
abbrev RecordTable.Decodes (t : RecordTable) (d : Dict StoredValue) : Prop :=
  Dict.Rel (fun text record => StoredValue.read text = .ok record) t d

/-- The records after a write, whose own record is read from its text. -/
def StoreWrite.replay (d : Dict StoredValue) : StoreWrite → Except CodecError (Dict StoredValue)
  | .set key record => do return d.insert key (← StoredValue.read record)
  | .delete key => .ok (d.erase key)
  | .clear => .ok .empty

namespace Database
variable {db : Database} {name : String} {d d' : Dict StoredValue} {ws : List StoreWrite}

lemma decodeEntries_eq_ok_iff {es : List (String × List UInt8)} {rs : List (String × StoredValue)} :
    decodeEntries es = .ok rs ↔
      List.Forall₂ (fun a b => a.1 = b.1 ∧ StoredValue.read a.2 = .ok b.2) es rs := by
  induction es generalizing rs with
  | nil =>
    rw [List.forall₂_nil_left_iff]
    constructor
    · intro heq
      cases heq
      rfl
    · intro heq
      subst heq
      rfl
  | cons e es ih =>
    obtain ⟨key, text⟩ := e
    rw [decodeEntries, List.forall₂_cons_left_iff]
    constructor
    · intro h
      obtain ⟨record, hrecord, h⟩ := bind_eq_ok.1 h
      obtain ⟨rest, hrest, h⟩ := bind_eq_ok.1 h
      cases h
      exact ⟨(key, record), rest, ⟨rfl, hrecord⟩, ih.1 hrest, rfl⟩
    · intro hx
      obtain ⟨⟨key', record⟩, rest, ⟨rfl, hrecord⟩, hrest, rfl⟩ := hx
      exact bind_eq_ok.2 ⟨record, hrecord, bind_eq_ok.2 ⟨rest, ih.2 hrest, rfl⟩⟩

/-- Loading a table gives the dictionary it stands for. -/
lemma load_eq_ok_iff : db.load name = .ok d ↔ (db.table name).Decodes d := by
  unfold load
  constructor
  · intro h
    obtain ⟨rs, hrs, h⟩ := bind_eq_ok.1 h
    cases h
    have hforall := decodeEntries_eq_ok_iff.1 hrs
    have hsorted := Dict.Rel.sorted
      (R := fun text record => StoredValue.read text = .ok record) hforall
    rw [RecordTable.Decodes, Dict.Rel, Dict.entries_ofList hsorted]
    exact hforall
  · intro h
    refine bind_eq_ok.2 ⟨d.entries, decodeEntries_eq_ok_iff.2 h, ?_⟩
    rw [Dict.ofList_entries]
    rfl

@[simp] lemma table_commit (db : Database) (name : String) (ws : List StoreWrite) :
    (db.commit name ws).table name = ws.foldl StoreWrite.apply (db.table name) := by
  rw [table, commit, Dict.get?_insert_self]
  rfl

end Database

/-- Writing to a table and to what it stands for. -/
lemma RecordTable.Decodes.apply {t : RecordTable} {d d' : Dict StoredValue} (h : t.Decodes d)
    {w : StoreWrite} (hw : w.replay d = .ok d') : (w.apply t).Decodes d' := by
  cases w with
  | set key text =>
    obtain ⟨record, hrecord, hd'⟩ := bind_eq_ok.1 hw
    cases hd'
    exact h.insert key hrecord
  | delete key =>
    cases hw
    exact h.erase key
  | clear =>
    cases hw
    exact .empty

/-- A transaction brings a table where its writes, applied in order, bring what it stands for. -/
lemma Database.load_commit {db : Database} {name : String} {d d' : Dict StoredValue}
    {ws : List StoreWrite} (hd : db.load name = .ok d)
    (hws : ws.foldlM StoreWrite.replay d = .ok d') : (db.commit name ws).load name = .ok d' := by
  have key : ∀ {t : RecordTable} {d : Dict StoredValue}, t.Decodes d →
      ws.foldlM StoreWrite.replay d = .ok d' → (ws.foldl StoreWrite.apply t).Decodes d' := by
    clear hd hws
    induction ws with
    | nil =>
      intro t d h heq
      cases heq
      exact h
    | cons w ws ih =>
      intro t d h hws
      obtain ⟨d₁, hw, hws⟩ := bind_eq_ok.1 hws
      exact ih (h.apply hw) hws
  rw [load_eq_ok_iff, table_commit]
  exact key (load_eq_ok_iff.1 hd) hws

/-! ## The cache and the table -/

/-- The second record is the first, or what is left of it after its text was read: the quiet NaN
stands in the place of any other. -/
def StoredValue.Settles (r r' : StoredValue) : Prop :=
  r' = r ∨ r' = r.quiet

lemma StoredValue.Settles.refl (r : StoredValue) : r.Settles r :=
  .inl rfl

lemma StoredValue.Settles.trans {r₁ r₂ r₃ : StoredValue} (h : r₁.Settles r₂) (h' : r₂.Settles r₃) :
    r₁.Settles r₃ := by
  rcases h with rfl | rfl
  · exact h'
  · rcases h' with rfl | rfl
    · exact .inr rfl
    · exact .inr (quiet_quiet r₁)

namespace Store

/-- The cache equals the queued writes, applied in order, to the decoded table on disk. -/
def Mirrors (s : Store) (db : Database) : Prop :=
  ∃ disk after, db.load s.name = .ok disk ∧ s.queued.foldlM StoreWrite.replay disk = .ok after ∧
    s.cache.Rel StoredValue.Settles after

/-- A store that has just been opened: nothing is queued, and the cache is what the table holds. -/
structure Opened (s : Store) (db : Database) : Prop where
  queued : s.queued = []
  load : db.load s.name = .ok s.cache

lemma Opened.mirrors {s : Store} {db : Database} (h : Opened s db) : Mirrors s db :=
  ⟨s.cache, s.cache, h.load, by rw [h.queued]; rfl, .refl StoredValue.Settles.refl _⟩

/-- Opening a store leaves its database, held, where the store says it is. -/
lemma exists_opened_of_openAt {t t' : FileTree} {path name : String} {s : Store}
    (h : openAt t path name = (.ok s, t')) :
    ∃ db, t'.node? s.place = some (.database db true) ∧ Opened s db := by
  unfold openAt at h
  split at h
  · cases h
  · split at h
    · cases h
    · next place db _ =>
      dsimp only at h
      split at h
      · next cache hload =>
        cases h
        exact ⟨db.commit name [], by simp [FileTree.put, FileTree.node?], rfl, hload⟩
      · cases h

variable {s s' : Store} {db : Database}

/-! ## Writes -/

/-- One more write, with the same effect on the cache and on the decoded table. -/
lemma Mirrors.write (hm : Mirrors s db) {w : StoreWrite} {cache : Dict StoredValue}
    (hcache : s'.cache = cache) (hname : s'.name = s.name) (hqueued : s'.queued = s.queued ++ [w])
    (hw : ∀ {after : Dict StoredValue}, s.cache.Rel StoredValue.Settles after →
      ∃ after', w.replay after = .ok after' ∧ cache.Rel StoredValue.Settles after') :
    Mirrors s' db := by
  obtain ⟨disk, after, hdisk, hafter, hrel⟩ := hm
  obtain ⟨after', hreplay, hrel'⟩ := hw hrel
  refine ⟨disk, after', by rw [hname, hdisk], ?_, by rw [hcache]; exact hrel'⟩
  rw [hqueued, List.foldlM_append, hafter]
  exact bind_eq_ok.2 ⟨after, rfl, bind_eq_ok.2 ⟨after', hreplay, rfl⟩⟩

lemma Mirrors.set (hm : Mirrors s db) {h : Heap} {key : String} {v : Value}
    (hfloats : ∀ x, h.Reaches v (.float x) → Json.ReadsBack x) (hset : s.set h key v = .ok s') :
    Mirrors s' db := by
  obtain ⟨record, hrecord, hset⟩ := bind_eq_ok.1 hset
  cases hset
  refine hm.write rfl rfl rfl fun {after} hrel => ?_
  have hread := StoredValue.read_write (StoredValue.readsBack_of_ofValue hrecord hfloats)
  exact ⟨after.insert key record.quiet, bind_eq_ok.2 ⟨_, hread, rfl⟩, hrel.insert key (.inr rfl)⟩

lemma Mirrors.delete (hm : Mirrors s db) (key : String) : Mirrors (s.delete key).2 db :=
  hm.write rfl rfl rfl fun {after} hrel => ⟨after.erase key, rfl, hrel.erase key⟩

lemma Mirrors.clear (hm : Mirrors s db) : Mirrors s.clear db :=
  hm.write rfl rfl rfl fun _ => ⟨.empty, rfl, .empty⟩

/-! ## Bringing the writes to the database -/

/-- All that a `sync` can do: refuse before anything is written; or write, if anything is queued,
and then read the cache anew or not. -/
lemma Mirrors.sync_cases (hm : Mirrors s db) (health : Health) :
    (s.queued ≠ [] ∧ health.commits = false ∧ s.sync db health = (.error .database, s, db)) ∨
    ∃ cache db', (s.queued = [] → db' = db) ∧ (s.queued = [] ∨ health.commits = true) ∧
      db'.load s.name = .ok cache ∧ s.cache.Rel StoredValue.Settles cache ∧
      s.sync db health = if health.loads then (.ok (), { s with cache := cache, queued := [] }, db')
        else (.error .database, { s with queued := [] }, db') := by
  obtain ⟨disk, after, hdisk, hafter, hrel⟩ := hm
  obtain ⟨name, place, cache, queued⟩ := s
  obtain ⟨commits, loads⟩ := health
  dsimp only at hdisk hafter hrel ⊢
  cases queued with
  | nil =>
    -- without writes the disk is read as it is
    right
    cases hafter
    refine ⟨disk, db, fun _ => rfl, .inl rfl, hdisk, hrel, ?_⟩
    cases loads <;> simp [sync, reload, hdisk]
  | cons w ws =>
    cases commits with
    | false => exact .inl ⟨List.cons_ne_nil w ws, rfl, by simp [sync]⟩
    | true =>
      -- what the transaction leaves on disk is what the cache has mirrored all along
      right
      have hload := Database.load_commit hdisk hafter
      refine ⟨after, db.commit name (w :: ws), ?_, .inr rfl, hload, hrel, ?_⟩
      · intro heq
        cases heq
      · cases loads <;> simp [sync, reload, hload]

/-- Every sync keeps the cache and the database together. -/
lemma Mirrors.sync (hm : Mirrors s db) (health : Health) :
    Mirrors (s.sync db health).2.1 (s.sync db health).2.2 := by
  rcases hm.sync_cases health with ⟨-, -, hsync⟩ | ⟨cache, db', -, -, hload, hrel, hsync⟩
  · rw [hsync]
    exact hm
  · rw [hsync]
    split
    · exact ⟨cache, cache, hload, rfl, .refl StoredValue.Settles.refl _⟩
    -- the writes are on disk although the cache could not be read anew
    · exact ⟨cache, cache, hload, rfl, hrel⟩

end Store
end WorkerHost
