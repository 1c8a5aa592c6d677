import WorkerHost.Json.Document
import WorkerHost.Numeric.FloatText
import WorkerHost.Toml.Moment
/-!
Tables that stand for dates and times. A date or time in a document is a table with one key, and so
any table below the root whose first key is that key is taken for one: the key has to have the text
of a date or time, which gets its normal form, and the other keys of the table are dropped.
-/

namespace WorkerHost.Toml

open Json

/-- The key under which a date or time stands. -/
def momentKey : String := "$__toml_private_datetime"

/-- The table that stands for a date or time. -/
def momentTable (m : List Char) : Document :=
  .obj [(momentKey, .str (String.ofList m))]

/-- Why a table does not stand for a date or time although its first key says so. -/
inductive MomentTableFault where
  | text (f : MomentFault)
  | noText (d : Document)

/-- A value that is no string, as faults name it. -/
def kindText : Document → String
  | .null => "floating point `NaN`"
  | .bool b => "boolean `" ++ toString b ++ "`"
  | .num (.int n) => "integer `" ++ toString n ++ "`"
  | .num (.float x) => "floating point `" ++ FloatLayout.positional.finite x ++ "`"
  | .str _ => "string"
  | .arr _ => "sequence"
  | .obj _ => "map"

def MomentTableFault.message : MomentTableFault → String
  | text f => f.message
  | noText d => "invalid type: " ++ kindText d ++ ", expected string containing a datetime"

/-- What the first key of a table that stands for a date or time has to have. -/
def settleMoment : Document → Except MomentTableFault Document
  | .str s => do return momentTable (← (moment? s.toList).mapError .text)
  | d => throw (.noText d)

mutual

/-- A document below the root with its dates and times in normal form. -/
def settle : Document → Except MomentTableFault Document
  | .arr items => do return .arr (← settleItems items)
  | .obj [] => return .obj []
  | .obj ((k, d) :: rest) =>
    if k == momentKey then settleMoment d
    else do return .obj ((k, ← settle d) :: (← settleMembers rest))
  | d => return d

def settleItems : List Document → Except MomentTableFault (List Document)
  | [] => return []
  | d :: rest => do return (← settle d) :: (← settleItems rest)

def settleMembers : List (String × Document) → Except MomentTableFault (List (String × Document))
  | [] => return []
  | (k, d) :: rest => do return (k, ← settle d) :: (← settleMembers rest)

end

/-- A document with its dates and times in normal form; its root is always a plain table. -/
def settleRoot : Document → Except MomentTableFault Document
  | .obj ms => do return .obj (← settleMembers ms)
  | d => settle d

end WorkerHost.Toml
