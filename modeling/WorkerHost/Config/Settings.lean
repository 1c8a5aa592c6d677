import WorkerHost.Config.Source
import WorkerHost.Config.Variable
import WorkerHost.Json.Access
import WorkerHost.Lifecycle.Basic
import WorkerHost.Shell.Basic
/-!
Settings of the whole process. They come in layers: the defaults, then a file in TOML, then
variables; where two layers say something about one setting, the later one holds, and tables are
merged key by key.
-/

namespace WorkerHost

/-! ## Permissions

A list of granted resources. A grant covers itself and what lies below it, past a slash or a colon;
a resource with a parent segment is never granted. -/

namespace Permission

/-- A character after which a resource goes on below what precedes it. -/
def isBoundary (c : Char) : Bool :=
  c == '/' || c == ':'

/-- Whether some segment of a resource is two dots; here a backslash separates segments too. -/
def climbs (resource : List Char) : Bool :=
  (resource.splitOnP fun c => isBoundary c || c == '\\').any (· == ['.', '.'])

/-- Whether a grant covers a resource. -/
def covers (granted resource : List Char) : Bool :=
  granted.isPrefixOf resource &&
    match resource.drop granted.length with
    | [] => true
    | c :: _ => granted.getLast?.any isBoundary || isBoundary c

/-- Whether a list of grants allows a resource; a star grants everything. -/
def allows (grants : List String) (resource : String) : Bool :=
  !climbs resource.toList && grants.any fun g => g == "*" || covers g.toList resource.toList

end Permission

/-! ## Settings -/

open Json

/-- The settings of a process. -/
structure Settings where
  /-- which log messages are shown -/
  log : String
  /-- the interpreter of workers that name none -/
  interpreter : String
  runMode : RunMode
  rolePolicy : RolePolicy
  afterRunOrder : AfterRunOrder
  storagePath : String
  /-- the resources that `request_permission` grants -/
  permissions : List String
  /-- whether terminals show the prompts of reads -/
  terminalEcho : Bool
  deriving DecidableEq

namespace Settings

def default : Settings where
  log := "tether=info"
  interpreter := Shell.kind
  runMode := .sync
  rolePolicy := .reject
  afterRunOrder := .callbacksFirst
  storagePath := "./data/tether.redb"
  permissions := []
  terminalEcho := true

/-- The name of the settings file that is read unless another one is named. -/
def defaultFile : String := "tether.toml"

/-- Two layers of settings as one. -/
def mergeMembers (merge : Document → Document → Document) (below above : List (String × Document)) :
    List (String × Document) :=
  above.foldl (fun ms (k, d) =>
    match ms.find? (·.1 == k) with
    | some (_, old) => Variable.setMember ms k (merge old d)
    | none => Variable.setMember ms k d) below

/-- A document over another one, to some depth: two objects are merged, anything else gives way. -/
def merge : Nat → Document → Document → Document
  | depth + 1, .obj below, .obj above => .obj (mergeMembers (merge depth) below above)
  | _, _, above => above

/-- How deep settings can nest. -/
def mergeDepth : Nat := 200

/-- The document of one variable's setting. -/
def nest : List String → Document → Document
  | [], d => d
  | k :: ks, d => .obj [(k, nest ks d)]

/-- The layer that variables make. -/
def ofVariables (vars : List (String × String)) : Document :=
  vars.foldl (fun layer (name, text) =>
    match Variable.path? name with
    | some path => merge mergeDepth layer (nest path (Variable.parse text))
    | none => layer) (.obj [])

/-! ## The layer of a file -/

/-- A table of a file that has this key stands for what the key has. -/
def valueKey : String := "___figment_value_value"

/-- A key that no table of a file may have. -/
def reservedKey : String := "___figment_value_id"

/-- What a table stands for, from its members. -/
def ofMembers (ms : List (String × Document)) : Document :=
  ((ms.find? (·.1 == valueKey)).map (·.2)).getD (.obj ms)

mutual

/-- A document below the root of a file, with its tables replaced by what they stand for. -/
def unwrap : Document → Option Document
  | .arr items => do return .arr (← unwrapItems items)
  | .obj ms => do
    guard (ms.all (·.1 != reservedKey))
    return ofMembers (← unwrapMembers ms)
  | d => some d

def unwrapItems : List Document → Option (List Document)
  | [] => some []
  | d :: rest => do return (← unwrap d) :: (← unwrapItems rest)

def unwrapMembers : List (String × Document) → Option (List (String × Document))
  | [] => some []
  | (k, d) :: rest => do return (k, ← unwrap d) :: (← unwrapMembers rest)

end

/-- The layer that the text of a file makes. -/
def ofFile? (text : String) : Option Document := do
  match ← Toml.read text.toList with
  | .obj ms => return .obj (← unwrapMembers ms)
  | _ => none

/-! ## The settings of a document -/

/-- A setting, with its default if no layer says anything about it. -/
def field {α : Type} (d : Document) (key : String) (fallback : α) (read : Document → Option α) :
    Option α :=
  match d.member? key with
  | none => some fallback
  | some d => read d

/-- The settings of terminals, which a list may give in order instead of a table. -/
def terminal? : Document → Option Bool
  | d@(.obj _) => field d "echo" default.terminalEcho Document.asBool?
  | .arr [] => some default.terminalEcho
  | .arr (d :: _) => Document.asBool? d
  | _ => none

/-- The settings that a merged document says. Settings that are not known are passed over; one of
the wrong kind spoils all. -/
def ofDocument : Document → Option Settings
  | d@(.obj _) => do
    return {
      log := ← field d "log" default.log Document.asStr?
      interpreter := ← field d "interpreter" default.interpreter Document.asStr?
      runMode := ← field d "run_mode" default.runMode fun d => d.asStr?.bind RunMode.ofText?
      rolePolicy := ← field d "role_policy" default.rolePolicy fun d => d.asStr?.bind RolePolicy.ofText?
      afterRunOrder := ← field d "after_run_order" default.afterRunOrder fun d =>
        d.asStr?.bind AfterRunOrder.ofText?
      storagePath := ← field d "storage_path" default.storagePath Document.asStr?
      permissions := ← field d "permissions" default.permissions Document.asStrs?
      terminalEcho := ← field d "terminal" default.terminalEcho terminal? }
  | _ => none

/-- The settings of a file's text, if there is a file, and of variables. -/
def load (file : Option String) (vars : List (String × String)) : Except ConfigError Settings := do
  let layer ←
    match file with
    | none => pure (Document.obj [])
    | some text =>
      match ofFile? text with
      | some d => pure d
      | none => throw .settings
  match ofDocument (merge mergeDepth layer (ofVariables vars)) with
  | some s => return s
  | none => throw .settings

/-- The settings as a document. -/
def document (s : Settings) : Document :=
  .obj [("log", .str s.log), ("interpreter", .str s.interpreter), ("run_mode", .str s.runMode.text),
    ("role_policy", .str s.rolePolicy.text), ("after_run_order", .str s.afterRunOrder.text),
    ("storage_path", .str s.storagePath), ("permissions", .arr (s.permissions.map .str)),
    ("terminal", .obj [("echo", .bool s.terminalEcho)])]

/-- Whether access to a resource is granted. -/
def permits (s : Settings) (resource : String) : Bool :=
  Permission.allows s.permissions resource

end Settings
end WorkerHost
