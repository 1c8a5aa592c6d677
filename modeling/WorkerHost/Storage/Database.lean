import WorkerHost.Storage.Record
/-!
Databases at rest: named tables of encoded records. A transaction applies its writes in order.
-/

namespace WorkerHost

/-- A write that waits for a transaction. -/
inductive StoreWrite where
  | set (key : String) (record : List UInt8)
  | delete (key : String)
  | clear
  deriving DecidableEq

/-- The encoded records of one store. -/
abbrev RecordTable := Dict (List UInt8)

/-- A table after a write. -/
def StoreWrite.apply (t : RecordTable) : StoreWrite → RecordTable
  | .set key record => t.insert key record
  | .delete key => t.erase key
  | .clear => .empty

/-- A database: tables by the names of their stores. -/
structure Database where
  tables : Dict RecordTable

namespace Database

def empty : Database := ⟨.empty⟩

/-- The table of a name; one that was never made is empty. -/
def table (db : Database) (name : String) : RecordTable :=
  (db.tables.get? name).getD .empty

/-- A transaction that applies writes to a table in order. -/
def commit (db : Database) (name : String) (writes : List StoreWrite) : Database :=
  ⟨db.tables.insert name (writes.foldl StoreWrite.apply (db.table name))⟩

/-- Reads the entries of a table, the first unreadable one ends it. -/
def decodeEntries : List (String × List UInt8) → Except CodecError (List (String × StoredValue))
  | [] => .ok []
  | (key, record) :: rest => do
    let stored ← StoredValue.read record
    return (key, stored) :: (← decodeEntries rest)

/-- The records of a table. -/
def load (db : Database) (name : String) : Except CodecError (Dict StoredValue) := do
  return Dict.ofList (← decodeEntries (db.table name).entries)

end Database
end WorkerHost
