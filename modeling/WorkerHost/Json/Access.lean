import WorkerHost.Json.Document
/-!
Looking into documents.
-/

namespace WorkerHost.Json.Document

/-- The member of an object under a key, the first one if the key is repeated. -/
def member? (key : String) : Document → Option Document
  | .obj ms => (ms.find? (·.1 == key)).map (·.2)
  | _ => none

def asStr? : Document → Option String
  | .str s => some s
  | _ => none

def asBool? : Document → Option Bool
  | .bool b => some b
  | _ => none

def asInt? : Document → Option Int
  | .num (.int n) => some n
  | _ => none

/-- The items of an array; anything else has none. -/
def items : Document → List Document
  | .arr items => items
  | _ => []

/-- The members of an object; anything else has none. -/
def members : Document → List (String × Document)
  | .obj ms => ms
  | _ => []

/-- The items of an array of strings. -/
def asStrs? : Document → Option (List String)
  | .arr items => items.mapM asStr?
  | _ => none

/-! ## Members of an object -/

/-- A member that is a string. -/
def strMember? (key : String) (d : Document) : Option String :=
  (d.member? key).bind asStr?

/-- A member that is a string, empty if it is missing. -/
def strMember (key : String) (d : Document) : String :=
  (d.strMember? key).getD ""

/-- The items of a member that is an array. -/
def itemsMember (key : String) (d : Document) : List Document :=
  ((d.member? key).map items).getD []

end WorkerHost.Json.Document
