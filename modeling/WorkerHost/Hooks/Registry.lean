import WorkerHost.Hooks.Dedent
import WorkerHost.Hooks.Phase
import WorkerHost.Hooks.Set
import WorkerHost.Json.Writer
/-!
The hook registry of a context: for every phase the callbacks or the code that plugins contributed,
in the order of registration. A host may also hold code for the phases of its workers, which is
shipped to each worker as it starts.
-/

namespace WorkerHost

open Json

/-- A contribution to a phase. -/
inductive Hook (C : Type) where
  | callback (c : C)
  | code (text : String)

def Hook.kind {C : Type} : Hook C → HookKind
  | .callback _ => .callback
  | .code _ => .code

/-- A set for every phase; a phase without an entry has the empty one. -/
structure PhaseTable (α : Type) where
  entries : List (Phase × HookSet α)

namespace PhaseTable
variable {α : Type} [BEq α]

def empty : PhaseTable α := ⟨[]⟩

def get (t : PhaseTable α) (p : Phase) : HookSet α :=
  ((t.entries.find? (·.1 == p)).map (·.2)).getD .empty

/-- The table with another set for a phase. -/
def set (t : PhaseTable α) (p : Phase) (s : HookSet α) : PhaseTable α :=
  ⟨(p, s) :: t.entries.filter (·.1 != p)⟩

/-- Adds to the set of a phase; also whether that changed it. -/
def insert (t : PhaseTable α) (p : Phase) (a : α) : Bool × PhaseTable α :=
  let (new, s) := (t.get p).insert a
  (new, t.set p s)

/-- Removes from the set of a phase; also whether that changed it. -/
def remove (t : PhaseTable α) (p : Phase) (a : α) : Bool × PhaseTable α :=
  let (there, s) := (t.get p).remove a
  (there, t.set p s)

end PhaseTable

/-- Code for the phases of a worker, ready to be shipped. -/
structure WorkerCode where
  phases : List (Phase × List String)
  deriving DecidableEq

/-- The hooks of one context. -/
structure Registry (C : Type) where
  role : Role
  policy : RolePolicy
  callbacks : PhaseTable C
  code : PhaseTable String
  /-- a host's code for its workers -/
  shipped : PhaseTable String

/-- Where an admitted hook belongs. -/
inductive Scope where
  | own
  | shipped
  deriving DecidableEq

namespace Registry
variable {C : Type} [BEq C]

def new (role : Role) (policy : RolePolicy) : Registry C :=
  ⟨role, policy, .empty, .empty, .empty⟩

/-- Where a hook for a role belongs, if it belongs anywhere. A host takes code for its workers;
anything else for the other side is refused or dropped, as the policy says. -/
def scopeFor (r : Registry C) (role : Role) (phase : Phase) (hook : Hook C) :
    Except HookError (Option Scope) :=
  if role = r.role then .ok (some .own)
  else if r.role = .host ∧ hook.kind = .code then .ok (some .shipped)
  else
    match r.policy with
    | .reject => .error (.wrongRole role phase r.role)
    | .ignore => .ok none

/-- Where a hook of the right kind belongs. -/
def place (r : Registry C) (role : Role) (phase : Phase) (hook : Hook C) :
    Except HookError (Option Scope) :=
  if hook.kind = phase.kind then r.scopeFor role phase hook
  else .error (.kindMismatch phase phase.kind)

/-- Applies an operation to the set that a hook belongs to. -/
def update (r : Registry C) (scope : Scope) (phase : Phase) (hook : Hook C)
    (onCallbacks : PhaseTable C → Phase → C → Bool × PhaseTable C)
    (onCode : PhaseTable String → Phase → String → Bool × PhaseTable String) :
    Bool × Registry C :=
  match scope, hook with
  | .own, .callback c =>
    let (changed, t) := onCallbacks r.callbacks phase c
    (changed, { r with callbacks := t })
  | .own, .code text =>
    let (changed, t) := onCode r.code phase text
    (changed, { r with code := t })
  | .shipped, .code text =>
    let (changed, t) := onCode r.shipped phase text
    (changed, { r with shipped := t })
  | .shipped, .callback _ => (false, r)

/-- Registers a hook; also whether that changed the registry. -/
def register (r : Registry C) (role : Role) (phase : Phase) (hook : Hook C) :
    Except HookError (Bool × Registry C) := do
  match ← r.place role phase hook with
  | some scope => return r.update scope phase hook PhaseTable.insert PhaseTable.insert
  | none => return (false, r)

/-- Removes a hook; also whether that changed the registry. -/
def unregister (r : Registry C) (role : Role) (phase : Phase) (hook : Hook C) :
    Except HookError (Bool × Registry C) := do
  match ← r.place role phase hook with
  | some scope => return r.update scope phase hook PhaseTable.remove PhaseTable.remove
  | none => return (false, r)

/-- The callbacks of a phase of the own role, in the order of registration. -/
def callbacksOf (r : Registry C) (phase : Phase) : List C :=
  (r.callbacks.get phase).toList

/-- The fragments of a phase of the own role, in the order of registration. -/
def fragments (r : Registry C) (phase : Phase) : List String :=
  (r.code.get phase).toList

/-- The code of a phase of the own role as one text. -/
def composed (r : Registry C) (phase : Phase) : String :=
  compose (r.fragments phase)

/-- The code held for workers: the phases that have any, in their fixed order. -/
def workerCode (r : Registry C) : WorkerCode :=
  ⟨(Phase.all.map fun p => (p, (r.shipped.get p).toList)).filter (!·.2.isEmpty)⟩

/-- Registers one fragment after the other until one is refused. -/
def installFragments (r : Registry C) : List (Phase × String) → Except HookError Unit × Registry C
  | [] => (.ok (), r)
  | (phase, text) :: rest =>
    match r.register .worker phase (.code text) with
    | .ok (_, r) => installFragments r rest
    | .error e => (.error e, r)

/-- Registers shipped code; what stood before a refused fragment stays. -/
def install (r : Registry C) (code : WorkerCode) : Except HookError Unit × Registry C :=
  r.installFragments (code.phases.flatMap fun (p, texts) => texts.map fun t => (p, t))

end Registry

/-! ## JSON text -/

namespace WorkerCode

def document (c : WorkerCode) : Document :=
  .obj [("phases", .arr (c.phases.map fun (p, texts) =>
    .arr [.str p.text, .arr (texts.map .str)]))]

def decoder : Decoder WorkerCode :=
  (Decoder.record₁ "phases"
    (.list (.pair (.enumeration Phase.ofText?) (.list .string)))).map WorkerCode.mk

/-- The JSON text of shipped code, as bytes. -/
def write (c : WorkerCode) : List UInt8 :=
  c.document.write

/-- The shipped code of a JSON text. -/
def read (text : List UInt8) : Except Fault WorkerCode :=
  decoder.readAll text

end WorkerCode
end WorkerHost
