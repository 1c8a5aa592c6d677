import WorkerHost.Hooks.Callback
import WorkerHost.Json.Access
/-!
Hooks written as JSON: `{"code": text}`, or `{"cb": key, "name": text, "do": [action, ...]}` with
actions such as `{"log": text}`, `{"run": code}`, `{"fail": [text, ...]}`, `{"config": key}` and
`{"register": {"role": role, "phase": phase, "hook": hook}}`.
-/

namespace WorkerHost.HookSpec

open Json

mutual

/-- The hook that a document writes. -/
def ofDocument : Document → HookSpec
  | .obj ms =>
    match Document.member? "code" (.obj ms) with
    | some d => .code (d.asStr?.getD "")
    | none =>
      .callback (Document.strMember "cb" (.obj ms)) (Document.strMember? "name" (.obj ms))
        (actionsIn ms)
  | _ => .code ""

/-- The member `do`. -/
def actionsIn : List (String × Document) → List Action
  | [] => []
  | ("do", .arr items) :: _ => actions items
  | _ :: rest => actionsIn rest

def actions : List Document → List Action
  | [] => []
  | d :: rest => action d :: actions rest

/-- The action that a document writes. -/
def action : Document → Action
  | .obj [("log", .str text)] => .log text
  | .obj [("run", .str source)] => .run source
  | .obj [("fail", .arr chain)] => .fail (chain.map fun d => d.asStr?.getD "")
  | .obj [("info", _)] => .info
  | .obj [("config", .str key)] => .config key
  | .obj [("interp", _)] => .interpreter
  | .obj [("state", _)] => .state
  | .obj [("register", .obj ms)] => change true ms
  | .obj [("unregister", .obj ms)] => change false ms
  | _ => .panic

/-- A change of the registry: a role if it is named, a phase and the member `hook`. -/
def change (add : Bool) (ms : List (String × Document)) : Action :=
  .change add ((Document.strMember? "role" (.obj ms)).bind Role.ofText?)
    (Document.strMember "phase" (.obj ms)) (hookIn ms)

/-- The member `hook`. -/
def hookIn : List (String × Document) → HookSpec
  | [] => .code ""
  | ("hook", d) :: _ => ofDocument d
  | _ :: rest => hookIn rest

end

end WorkerHost.HookSpec
