import WorkerHost.Json.Document
/-!
How the lines of a TOML text define tables. A table may be named by a header once, and a table that
a header has named cannot be extended by a dotted key; these rules need to know of each table
whether something named it and whether a dotted key made it.
-/

namespace WorkerHost.Toml

open Json

mutual

/-- A table under construction. It is `implied` as long as only longer names have mentioned it, and
`dotted` if it came from a dotted key. -/
inductive Table where
  | mk (implied dotted : Bool) (entries : List (String × Entry))

/-- What a key stands for: a finished value, a table, or a list of tables, the newest first. -/
inductive Entry where
  | value (d : Document)
  | table (t : Table)
  | tables (ts : List Table)

end

namespace Table

def implied : Table → Bool
  | mk i _ _ => i

def dotted : Table → Bool
  | mk _ d _ => d

def entries : Table → List (String × Entry)
  | mk _ _ es => es

/-- A table that something names. -/
def empty : Table := mk false false []

def get? (t : Table) (k : String) : Option Entry :=
  (t.entries.find? (·.1 == k)).map (·.2)

def erase (t : Table) (k : String) : Table :=
  mk t.implied t.dotted (t.entries.filter (·.1 != k))

/-- The table with an entry changed where it stands, or a new entry at its end. -/
def put (t : Table) (k : String) (e : Entry) : Table :=
  mk t.implied t.dotted
    (if (t.get? k).isSome then t.entries.map fun old => if old.1 == k then (k, e) else old
      else t.entries ++ [(k, e)])

/-- The table as one that a header names. -/
def named (t : Table) : Table := mk false false t.entries

/-- Works on the table with the given name, below this one. Tables on the way that do not exist are
made. A value bars the way, and a dotted key does not pass a table that has been named. -/
def within {α : Type} (byDots : Bool) (change : Table → Option (α × Table)) :
    List String → Table → Option (α × Table)
  | [], t => change t
  | k :: ks, t =>
    match t.get? k with
    | none => do
      let (a, child) ← within byDots change ks (mk true byDots [])
      return (a, t.put k (.table child))
    | some (.value _) => none
    | some (.tables []) => none
    | some (.tables (last :: earlier)) => do
      let (a, last) ← within byDots change ks last
      return (a, t.put k (.tables (last :: earlier)))
    | some (.table child) =>
      if byDots && !child.implied then none
      else do
        let (a, child) ← within byDots change ks child
        return (a, t.put k (.table child))

/-- Gives a key a value; the part of the key before its last piece leads through dotted tables. -/
def define (path : List String) (k : String) (d : Document) (t : Table) : Option Table := do
  let ((), t) ← t.within true (fun t =>
    if t.dotted == path.isEmpty then none
    else if (t.get? k).isSome then none
    else some ((), t.put k (.value d))) path
  return t

mutual

/-- The table as an object. -/
def toDocument : Table → Document
  | mk _ _ es => .obj (entriesToDocument es)

def entriesToDocument : List (String × Entry) → List (String × Document)
  | [] => []
  | (k, e) :: rest => (k, entryToDocument e) :: entriesToDocument rest

def entryToDocument : Entry → Document
  | .value d => d
  | .table t => t.toDocument
  | .tables ts => .arr (tablesToDocument ts).reverse

def tablesToDocument : List Table → List Document
  | [] => []
  | t :: rest => t.toDocument :: tablesToDocument rest

end

end Table

/-- A text that has been read so far: the tables finished by headers, and the one being filled. -/
structure Draft where
  root : Table
  /-- the name of the table being filled; the root has none -/
  path : List String
  /-- the table being filled is the next one of a list -/
  inList : Bool
  current : Table

namespace Draft

def start : Draft := ⟨.empty, [], false, .empty⟩

/-- The name before its last piece, and that piece. -/
def splitLast (path : List String) : Option (List String × String) := do
  return (path.dropLast, ← path.getLast?)

/-- Puts the table being filled into its place. -/
def close (d : Draft) : Option Table :=
  match splitLast d.path with
  | none => some d.current
  | some (parent, k) => do
    let ((), root) ← d.root.within false (fun t =>
      if d.inList then
        match t.get? k with
        | none => some ((), t.put k (.tables [d.current]))
        | some (.tables ts) => some ((), t.put k (.tables (d.current :: ts)))
        | _ => none
      else some ((), t.put k (.table d.current))) parent
    return root

/-- A header: a table that is new or has only been implied, or the next one of a list. -/
def openTable (inList : Bool) (path : List String) (d : Draft) : Option Draft := do
  let root ← d.close
  let (parent, k) ← splitLast path
  let (current, root) ← root.within false (fun t =>
    match t.get? k, inList with
    | none, _ => some (.empty, t)
    | some (.tables _), true => some (.empty, t)
    | some (.table child), false =>
      if child.implied && !child.dotted then some (child.named, t.erase k) else none
    | _, _ => none) parent
  return ⟨root, path, inList, current⟩

/-- A line that gives a key a value. -/
def define (path : List String) (k : String) (v : Document) (d : Draft) : Option Draft := do
  return { d with current := ← d.current.define path k v }

end Draft
end WorkerHost.Toml
