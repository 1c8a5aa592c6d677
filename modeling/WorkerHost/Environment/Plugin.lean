import WorkerHost.Hooks.Callback
/-!
Plugins: bundles of hooks that are installed together. One plugin can serve both sides, since each
of its hooks may say in which contexts it is to be installed.
-/

namespace WorkerHost

/-- A hook of a plugin. -/
structure PluginHook where
  /-- the contexts in which it is installed; all of them if none is said -/
  only : Option Role
  /-- the role it is registered for; that of the context if none is said -/
  role : Option Role
  phase : String
  hook : HookSpec

/-- A plugin. Its identity is its number. -/
structure Plugin where
  id : Nat
  name : String
  hooks : List PluginHook

namespace Plugin

/-- Registers hooks one after the other until one is refused; the ones before it stay. The hooks
mention callbacks in one group of their own. -/
def installHooks (r : Registry Callback) (ms : Mentions) (group : Nat) :
    List PluginHook → Except HookError Unit × Registry Callback × Mentions
  | [] => (.ok (), r, ms)
  | h :: rest =>
    if h.only.all (· == r.role) then
      match Phase.ofText h.phase with
      | .error e => (.error e, r, ms)
      | .ok phase =>
        match r.change ms true (h.role.getD r.role) phase group h.hook with
        | (.ok _, r, ms) => installHooks r ms group rest
        | (.error e, r, ms) => (.error e, r, ms)
    else installHooks r ms group rest

/-- Installs a plugin into a context. -/
def install (p : Plugin) (r : Registry Callback) (ms : Mentions) (group : Nat) :
    Except HookError Unit × Registry Callback × Mentions :=
  installHooks r ms group p.hooks

/-- Installs plugins in turn until one fails, each in a group of its own; also the next group. -/
def installAll (r : Registry Callback) (ms : Mentions) (group : Nat) :
    List Plugin → Except HookError Unit × Registry Callback × Mentions × Nat
  | [] => (.ok (), r, ms, group)
  | p :: rest =>
    match p.install r ms group with
    | (.ok (), r, ms) => installAll r ms (group + 1) rest
    | (.error e, r, ms) => (.error e, r, ms, group + 1)

end Plugin
end WorkerHost
