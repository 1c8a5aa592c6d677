import WorkerHost.Files.Tree
/-!
Stores: a cache of records, which serves all reads, and the writes that have not reached the
database yet. `sync` brings them there in one transaction and reads the cache anew; if the
database fails on the way, nothing is lost and a later `sync` can try again.
-/

namespace WorkerHost

/-- What can go wrong with a store. -/
inductive StorageError where
  | database
  | codec (e : CodecError)
  deriving DecidableEq

def StorageError.message : StorageError → String
  | database => "Database error: I/O error"
  | codec e => "Codec error: " ++ e.message

/-- An open store. -/
structure Store where
  name : String
  /-- where its database is -/
  place : Place
  cache : Dict StoredValue
  /-- the writes since the last successful `sync`, the oldest first -/
  queued : List StoreWrite

namespace Store

/-- A value of the store, made of fresh objects. -/
def get (s : Store) (h : Heap) (key : String) : Except CodecError (Option Value × Heap) :=
  match s.cache.get? key with
  | none => .ok (none, h)
  | some stored => do
    let (v, h) ← stored.toValue h
    return (some v, h)

def contains (s : Store) (key : String) : Bool :=
  s.cache.contains key

/-- Sets a key. The value is encoded as it is now; one without an encoding changes nothing. -/
def set (s : Store) (h : Heap) (key : String) (v : Value) : Except CodecError Store := do
  let stored ← StoredValue.ofValue h v
  return { s with
    cache := s.cache.insert key stored
    queued := s.queued ++ [.set key stored.write] }

/-- Removes a key, and says whether it was there. -/
def delete (s : Store) (key : String) : Bool × Store :=
  (s.cache.contains key,
    { s with cache := s.cache.erase key, queued := s.queued ++ [.delete key] })

/-- Removes all keys. -/
def clear (s : Store) : Store :=
  { s with cache := .empty, queued := s.queued ++ [.clear] }

def keys (s : Store) : List String :=
  s.cache.keys

def size (s : Store) : Nat :=
  s.cache.size

def isEmpty (s : Store) : Bool :=
  s.cache.entries.isEmpty

/-- The number of writes that have not reached the database. -/
def pending (s : Store) : Nat :=
  s.queued.length

/-- What a database can do at the moment. -/
structure Health where
  commits : Bool
  loads : Bool

def Health.good : Health := ⟨true, true⟩

/-- Reads the cache anew. -/
def reload (s : Store) (db : Database) (health : Health) : Except StorageError Store :=
  if health.loads then
    match db.load s.name with
    | .ok cache => .ok { s with cache := cache }
    | .error e => .error (.codec e)
  else .error .database

/-- Brings the queued writes to the database, then reads the cache anew. Writes that the database
does not take stay queued; written ones do not, even if the cache can not be read then. -/
def sync (s : Store) (db : Database) (health : Health) :
    Except StorageError Unit × Store × Database :=
  let finish (s : Store) (db : Database) :=
    match s.reload db health with
    | .ok s => (.ok (), s, db)
    | .error e => (.error e, s, db)
  if s.queued.isEmpty then finish s db
  else if health.commits then finish { s with queued := [] } (db.commit s.name s.queued)
  else (.error .database, s, db)

/-- The database at a path, made if nothing or an empty file is there. A database that is held can
not be opened again. -/
def openDatabase (t : FileTree) (path : String) : Except StorageError (Place × Database) :=
  match t.destination path with
  | .error _ => .error .database
  | .ok place =>
    match t.node? place with
    | none | some (.file []) => .ok (place, .empty)
    | some (.database db false) => .ok (place, db)
    | _ => .error .database

/-- Opens the store of a name in the database at a path, after making the directories on the way,
which stay even if the database can not be opened. A table with an unreadable record fails, and
leaves the database closed. -/
def openAt (t : FileTree) (path name : String) : Except StorageError Store × FileTree :=
  match t.makeDirectories (Path.above path) with
  | (.error _, t) => (.error .database, t)
  | (.ok (), t) =>
    match openDatabase t path with
    | .error e => (.error e, t)
    | .ok (place, db) =>
      let db := db.commit name []
      match db.load name with
      | .ok cache => (.ok ⟨name, place, cache, []⟩, t.put place (.database db true))
      | .error e => (.error (.codec e), t.put place (.database db false))

/-- Gives the database back; queued writes are lost. -/
def close (s : Store) (t : FileTree) : FileTree :=
  match t.node? s.place with
  | some (.database db _) => t.put s.place (.database db false)
  | _ => t

/-- `sync` with the database in a tree. -/
def syncIn (s : Store) (t : FileTree) (health : Health) :
    Except StorageError Unit × Store × FileTree :=
  match t.node? s.place with
  | some (.database db held) =>
    let (r, s, db) := s.sync db health
    (r, s, t.put s.place (.database db held))
  | _ => (.error .database, s, t)

/-- Writes raw bytes as a record of a store that is not open. Directories are not made. -/
def putRaw (t : FileTree) (path name key : String) (record : List UInt8) :
    Except StorageError Unit × FileTree :=
  match openDatabase t path with
  | .error e => (.error e, t)
  | .ok (place, db) =>
    (.ok (), t.put place (.database (db.commit name [.set key record]) false))

end Store
end WorkerHost
