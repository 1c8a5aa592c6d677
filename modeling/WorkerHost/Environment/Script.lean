import WorkerHost.Environment.Workers
import WorkerHost.Hooks.Script
import WorkerHost.Value.Literal
/-!
Plugins and the options of workers written as JSON.

A plugin is `{"name": text, "hooks": [hook, ...]}`, where each hook is
`{"on": role, "role": role, "phase": phase, "hook": hook}` and both roles may be left out. A
worker is `{"code": text}` or `{"url": text}` with any of the members `interpreter`, `version`,
`mode`, `name`, `terminal`, `config` and `methods`. A configuration is
`{"text": text, "format": format}`, `{"url": text}` or `{"value": value}`, and a method
`{"method": name, "handler": text}`.
-/

namespace WorkerHost

open Json

/-- The hook of a plugin that a document writes. -/
def PluginHook.ofDocument (d : Document) : PluginHook where
  only := (d.strMember? "on").bind Role.ofText?
  role := (d.strMember? "role").bind Role.ofText?
  phase := d.strMember "phase"
  hook := .ofDocument ((d.member? "hook").getD .null)

/-- The plugin of a number that a document writes. -/
def Plugin.ofDocument (id : Nat) (d : Document) : Plugin where
  id := id
  name := d.strMember "name"
  hooks := (d.itemsMember "hooks").map .ofDocument

/-- The factory of a kind: `fails` and `panics` do so, and every other kind makes shells. -/
def Factory.ofText (kind : String) : Factory where
  kind := kind
  behaviour :=
    match kind with
    | "fails" => .failing
    | "panics" => .crashing
    | _ => .shell

/-- The source text that a document gives or names. -/
def SourceRef.ofDocument (d : Document) : SourceRef :=
  match d.strMember? "url" with
  | some u => .url u
  | none => .inline (d.strMember "code")

/-- The configuration that a document gives or names. -/
def ConfigSource.ofDocument (d : Document) : StateM Heap ConfigSource := do
  match d.strMember? "text", d.strMember? "url" with
  | some text, _ => return .inline text ((d.strMember? "format").bind ConfigFormat.ofText?)
  | none, some u => return .url u
  | none, none => return .value (← Literal.graph ((d.member? "value").getD .null))

/-- Runs code in the worker that called, and answers what came of it as text. -/
def HostMethod.rerun (code : String) (channel : Nat) : Service := do
  match ← callWorker channel (.method Method.run) [.str code] with
  | .ok v => return .ok (.str ("ran " ++ (← readHeap (·.display v))))
  | .error e => return .ok (.str e.message)

/-- The method that a text names: `hang` never answers, `rerun:` and code runs the code, and
anything else names a body. -/
def HostMethod.ofText (text : String) : HostMethod :=
  .custom fun channel args =>
    if text == "hang" then hang
    else if text.startsWith "rerun:" then rerun (text.drop 6).toString channel
    else (Body.ofText text).asHandler (fun method args => callWorker channel (.method method) args)
      args

/-- The options of a worker that a document writes. -/
def WorkerOptions.ofDocument (d : Document) : StateM Heap WorkerOptions := do
  let config ←
    match d.member? "config" with
    | some c => do pure (some (← ConfigSource.ofDocument c))
    | none => pure none
  return {
    interpreter := d.strMember? "interpreter"
    version := d.strMember? "version"
    config := config
    mode := (d.strMember? "mode").bind RunMode.ofText?
    name := d.strMember? "name"
    terminal := d.strMember? "terminal"
    methods := (d.itemsMember "methods").map fun m =>
      (m.strMember "method", .ofText (m.strMember "handler")) }

end WorkerHost
