import WorkerHost.Numeric.Binary64
import WorkerHost.Value.Dict
/-!
The values that flow between contexts. A compound value is a reference to an object that lives in a
heap (`WorkerHost.Heap`), so two places may hold one object, and an object may hold itself.
-/

namespace WorkerHost

/-- Names a callable in the reference table of a channel. -/
structure HandleId where
  id : UInt64
  deriving DecidableEq, Hashable, Inhabited

def HandleId.text (h : HandleId) : String :=
  "handle#" ++ toString h.id.toNat

/-- What the code of a worker can ask of its host through the module it is given. -/
inductive HostService where
  | sleep
  | notify
  | requestPermission
  | call
  deriving DecidableEq, Inhabited

/-- What a native function does with its arguments. -/
inductive Body where
  /-- answers null -/
  | nothing
  /-- answers a list of the arguments -/
  | arguments
  /-- answers the first argument, or null -/
  | first
  /-- answers the number of arguments -/
  | count
  /-- answers the sum of the arguments that are integers, wrapped to 64 bits -/
  | sum
  /-- answers a list of the names of the arguments' kinds -/
  | kinds
  /-- answers the texts of the arguments, joined by bars -/
  | show
  /-- answers a function, which no other context can be given -/
  | makeFunction
  /-- fails with the texts of the arguments, joined by spaces -/
  | fail
  /-- calls a method of the other side of the channel with the same arguments -/
  | forward (method : String)
  /-- asks the host for a service -/
  | service (s : HostService)
  deriving DecidableEq, Inhabited

/-- A live callable. Its identity is its number, not its name or body. -/
structure Function where
  id : Nat
  name : String
  body : Body
  deriving DecidableEq, Inhabited

/-- A value: a scalar, a reference to an object, or a callable. -/
inductive Value where
  | null
  | bool (b : Bool)
  | int (n : Int64)
  | float (x : Binary64)
  | str (s : String)
  /-- a mutable buffer of bytes -/
  | bytes (bs : List UInt8)
  /-- a read-only view of bytes -/
  | view (bs : List UInt8)
  | object (ref : Nat)
  | handle (h : HandleId)
  | function (f : Function)
  deriving DecidableEq, Inhabited

/-- The contents of a compound value. -/
inductive Object where
  | list (items : List Value)
  | map (entries : Dict Value)

instance : Inhabited Object := ⟨.list []⟩

namespace Object

/-- The values an object holds, in order of position or key. -/
def children : Object → List Value
  | .list items => items
  | .map entries => entries.values

def kind : Object → String
  | .list _ => "list"
  | .map _ => "map"

end Object

namespace Value

def isNull : Value → Bool
  | .null => true
  | _ => false

def asBool? : Value → Option Bool
  | .bool b => some b
  | _ => none

/-- An integer, or a float without a fractional part, clamped to 64 bits. -/
def asInt? : Value → Option Int64
  | .int n => some n
  | .float x =>
    if x.isWhole then
      let n := x.truncate
      some (if n < -2 ^ 63 then Int64.minValue
        else if n ≥ 2 ^ 63 then Int64.maxValue
        else Int64.ofInt n)
    else none
  | _ => none

def asFloat? : Value → Option Binary64
  | .float x => some x
  | .int n => some (Binary64.ofInt n.toInt)
  | _ => none

def asStr? : Value → Option String
  | .str s => some s
  | _ => none

def asBytes? : Value → Option (List UInt8)
  | .bytes bs | .view bs => some bs
  | _ => none

def isObject : Value → Bool
  | .object _ => true
  | _ => false

/-- Equality by identity: scalars by value, floats as numbers, objects and functions by reference.
-/
def same : Value → Value → Bool
  | .float x, .float y => x.numEq y
  | .function f, .function g => f.id == g.id
  | v, w => v == w

end Value
end WorkerHost
