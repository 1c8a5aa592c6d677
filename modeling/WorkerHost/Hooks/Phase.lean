import WorkerHost.Json.Decoder
/-!
The phases of a run at which plugins contribute, and the two sides that have phases of their own.
-/

namespace WorkerHost

/-- Which side of a channel a context is. -/
inductive Role where
  | host
  | worker
  deriving DecidableEq, Inhabited

namespace Role

def text : Role → String
  | host => "host"
  | worker => "worker"

/-- The role of a name. -/
def ofText? : String → Option Role
  | "host" => some host
  | "worker" => some worker
  | _ => none

end Role

/-- What a phase collects. -/
inductive HookKind where
  | callback
  | code
  deriving DecidableEq

def HookKind.text : HookKind → String
  | callback => "callback"
  | code => "code"

/-- A point of a run at which hooks are called or code is executed. -/
inductive Phase where
  | onReady
  | onBeforeRun
  | onBeforeRunAsync
  | onAfterRun
  | onAfterRunAsync
  | codeBeforeRun
  | codeBeforeRunAsync
  | codeAfterRun
  | codeAfterRunAsync
  deriving DecidableEq, Inhabited

namespace Phase

def all : List Phase :=
  [onReady, onBeforeRun, onBeforeRunAsync, onAfterRun, onAfterRunAsync, codeBeforeRun,
    codeBeforeRunAsync, codeAfterRun, codeAfterRunAsync]

def text : Phase → String
  | onReady => "onReady"
  | onBeforeRun => "onBeforeRun"
  | onBeforeRunAsync => "onBeforeRunAsync"
  | onAfterRun => "onAfterRun"
  | onAfterRunAsync => "onAfterRunAsync"
  | codeBeforeRun => "codeBeforeRun"
  | codeBeforeRunAsync => "codeBeforeRunAsync"
  | codeAfterRun => "codeAfterRun"
  | codeAfterRunAsync => "codeAfterRunAsync"

def kind : Phase → HookKind
  | onReady | onBeforeRun | onBeforeRunAsync | onAfterRun | onAfterRunAsync => .callback
  | codeBeforeRun | codeBeforeRunAsync | codeAfterRun | codeAfterRunAsync => .code

/-- The phase of a name. -/
def ofText? (name : String) : Option Phase :=
  all.find? (·.text == name)

/-- A phase has one name and a name one phase. -/
theorem ofText?_text (p : Phase) : ofText? p.text = some p := by
  cases p <;> decide

end Phase

/-- What to do with a registration aimed at the other side. -/
inductive RolePolicy where
  | reject
  | ignore
  deriving DecidableEq, Inhabited

namespace RolePolicy

def text : RolePolicy → String
  | reject => "reject"
  | ignore => "ignore"

/-- The policy of a name. -/
def ofText? : String → Option RolePolicy
  | "reject" => some reject
  | "ignore" => some ignore
  | _ => none

end RolePolicy

/-- Why a registration is refused. -/
inductive HookError where
  | kindMismatch (phase : Phase) (expected : HookKind)
  | wrongRole (role : Role) (phase : Phase) (context : Role)
  | unknownPhase (name : String)
  deriving DecidableEq

namespace HookError

/-- The name of the kind of error. -/
def name : HookError → String
  | kindMismatch .. => "KindMismatch"
  | wrongRole .. => "WrongRole"
  | unknownPhase _ => "UnknownPhase"

def message : HookError → String
  | kindMismatch phase expected => phase.text ++ " expects " ++ expected.text ++ " hooks"
  | wrongRole role phase context =>
    "Cannot register a " ++ role.text ++ " " ++ phase.text ++ " hook from the " ++ context.text ++
      " context"
  | unknownPhase name => "Unknown phase: " ++ name

end HookError

/-- The phase of a name, or the error that there is none. -/
def Phase.ofText (name : String) : Except HookError Phase :=
  match ofText? name with
  | some p => .ok p
  | none => .error (.unknownPhase name)

end WorkerHost
