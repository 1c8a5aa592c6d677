import WorkerHost.Json.Access
import WorkerHost.Json.Reader
import WorkerHost.Json.Writer
import WorkerHost.Storage.Database
import WorkerHost.Text.Hex
/-!
Databases as files: the JSON text of a database, an object of tables, each an object of records with
the bytes of a record in hexadecimal.
-/

namespace WorkerHost.Database

open Json

def document (db : Database) : Document :=
  .obj (db.tables.entries.map fun (name, table) =>
    (name, .obj (table.entries.map fun (key, record) => (key, .str (Text.hexOfBytes record)))))

/-- The contents of the file of a database. -/
def write (db : Database) : List UInt8 :=
  db.document.write

/-- The table that a document writes. -/
def tableOf? : Document → Option RecordTable
  | .obj ms => do
    let records ← ms.mapM fun (key, d) => do return (key, Text.bytesOfHex (← d.asStr?))
    return Dict.ofList records
  | _ => none

/-- The database of a document. -/
def ofDocument? : Document → Option Database
  | .obj ms => do
    let tables ← ms.mapM fun (name, d) => do return (name, ← tableOf? d)
    return ⟨Dict.ofList tables⟩
  | _ => none

/-- The database that a file holds, if it holds one. -/
def read? (bytes : List UInt8) : Option Database :=
  match Document.read bytes with
  | .ok d => ofDocument? d
  | .error _ => none

end WorkerHost.Database
