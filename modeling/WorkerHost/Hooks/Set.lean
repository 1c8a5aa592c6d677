/-!
Sets that keep the order of insertion and hold each element once.
-/

namespace WorkerHost

/-- Elements in the order of their insertion, none of them twice. -/
structure HookSet (α : Type) where
  items : List α

namespace HookSet
variable {α : Type} [BEq α]

def empty : HookSet α := ⟨[]⟩

instance : Inhabited (HookSet α) := ⟨⟨[]⟩⟩

def contains (s : HookSet α) (a : α) : Bool :=
  s.items.any (· == a)

/-- The set with an element at its end, unless it has it, and whether it is new. -/
def insert (s : HookSet α) (a : α) : Bool × HookSet α :=
  if s.contains a then (false, s) else (true, ⟨s.items ++ [a]⟩)

/-- The set without an element, and whether it was there. -/
def remove (s : HookSet α) (a : α) : Bool × HookSet α :=
  let items := s.items.filter fun b => !(b == a)
  (items.length != s.items.length, ⟨items⟩)

def size (s : HookSet α) : Nat :=
  s.items.length

def isEmpty (s : HookSet α) : Bool :=
  s.items.isEmpty

def toList (s : HookSet α) : List α :=
  s.items

end HookSet
end WorkerHost
