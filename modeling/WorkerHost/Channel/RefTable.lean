import Std.Data.HashMap
import WorkerHost.Value.Basic
/-!
The reference table of one side of a channel: live things that the other side names by handles.
Handles are counted up and never given twice.
-/

namespace WorkerHost

/-- Live things by their handles. -/
structure RefTable (α : Type) where
  next : UInt64
  entries : Std.HashMap HandleId α

namespace RefTable
variable {α : Type}

def empty : RefTable α := ⟨1, ∅⟩

instance : Inhabited (RefTable α) := ⟨empty⟩

/-- Stores a thing under a new handle. -/
def insert (t : RefTable α) (a : α) : HandleId × RefTable α :=
  (⟨t.next⟩, ⟨t.next + 1, t.entries.insert ⟨t.next⟩ a⟩)

def get? (t : RefTable α) (h : HandleId) : Option α :=
  t.entries[h]?

/-- The table without a handle. -/
def erase (t : RefTable α) (h : HandleId) : RefTable α :=
  { t with entries := t.entries.erase h }

def size (t : RefTable α) : Nat :=
  t.entries.size

def isEmpty (t : RefTable α) : Bool :=
  t.entries.isEmpty

end RefTable
end WorkerHost
