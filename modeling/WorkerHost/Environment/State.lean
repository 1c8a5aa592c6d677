import WorkerHost.Channel.Api
import WorkerHost.Config.Settings
import WorkerHost.Environment.Factory
import WorkerHost.Environment.Plugin
import WorkerHost.Source.Fetch
import WorkerHost.Storage.Store
import WorkerHost.Stream.Sink
import WorkerHost.Task
import WorkerHost.Terminal.Session
/-!
The state of an environment: its settings, its hooks and lifecycle, those of its workers, and what
the runs have shown to the user so far.
-/

namespace WorkerHost

/-- What a context keeps of its own, on the host as in a worker. -/
structure ContextState where
  registry : Registry Callback
  lifecycle : Lifecycle

/-- A context without hooks, before its first run. -/
def ContextState.new (role : Role) (s : Settings) : ContextState :=
  ⟨.new role s.rolePolicy, .new s.afterRunOrder⟩

/-- What a worker keeps: one interpreter, and streams over its channel. -/
structure WorkerContext where
  name : String
  context : ContextState
  shell : Shell
  config : Value
  /-- whether the interpreter is in the middle of a run -/
  busy : Bool
  out : ChannelSink
  err : ChannelSink

instance : Inhabited WorkerContext :=
  ⟨⟨"", .new .worker .default, .new "", .null, false, .new, .new⟩⟩

namespace WorkerContext

def sink (w : WorkerContext) : Stream → ChannelSink
  | .stdout => w.out
  | .stderr => w.err

def setSink (w : WorkerContext) (k : ChannelSink) : Stream → WorkerContext
  | .stdout => { w with out := k }
  | .stderr => { w with err := k }

end WorkerContext

/-- The contexts of an environment: its own, and those of its workers by their channels. -/
inductive ContextId where
  | own
  | worker (channel : Nat)
  deriving DecidableEq

/-- The state of an environment. -/
structure EnvironmentState where
  heap : Heap
  settings : Settings
  own : ContextState
  /-- the contexts of the workers, by their channels -/
  workers : Array WorkerContext
  mentions : Mentions
  /-- the group of the next plugin that is installed -/
  nextGroup : Nat
  /-- the plugins for workers to come -/
  plugins : List Plugin
  factories : Dict Factory
  /-- the number of the next worker -/
  nextWorker : UInt64
  /-- why the system has no thread for another worker, if it has none -/
  noThread : Option String
  sessions : Array Session
  /-- the text on each display, by the names of terminals -/
  displays : Dict String
  /-- the sessions of the workers that have a terminal, by the numbers of the workers -/
  terminals : List (UInt64 × Nat)
  /-- what was written while no terminal was attached -/
  output : String
  /-- what was shown to the user -/
  notes : List String
  /-- what callbacks logged -/
  log : List String
  store : Option Store
  files : FileFetch

instance : HasHeap EnvironmentState := ⟨(·.heap), fun h s => { s with heap := h }⟩

namespace EnvironmentState

/-- An environment with nothing in it but the shell. -/
def new (role : Role) (settings : Settings) (files : FileFetch) : EnvironmentState where
  heap := .empty
  settings := settings
  own := .new role settings
  workers := #[]
  mentions := .empty
  nextGroup := 1
  plugins := []
  factories := .ofList [(Shell.kind, .shell)]
  nextWorker := 1
  noThread := none
  sessions := #[]
  displays := .empty
  terminals := []
  output := ""
  notes := []
  log := []
  store := none
  files := files

/-- Shows a message to the user. -/
def note (text : String) (s : EnvironmentState) : EnvironmentState :=
  { s with notes := s.notes ++ [text] }

/-- Writes to the output. -/
def print (text : String) (s : EnvironmentState) : EnvironmentState :=
  { s with output := s.output ++ text }

/-- What the user has seen. -/
structure Shown where
  output : String
  notes : List String
  log : List String

/-- Takes what has been shown so far; it is not shown again. -/
def takeShown (s : EnvironmentState) : Shown × EnvironmentState :=
  (⟨s.output, s.notes, s.log⟩, { s with output := "", notes := [], log := [] })

/-- Opens the store of a name in the database at a path, for the workers to come. -/
def openStore (path name : String) (s : EnvironmentState) :
    Except StorageError Unit × EnvironmentState :=
  match Store.openAt s.files.tree path name with
  | (.ok store, tree) =>
    (.ok (), { s with store := some store, files := { s.files with tree := tree } })
  | (.error e, tree) => (.error e, { s with files := { s.files with tree := tree } })

/-- Does something with the store and the files. -/
def onStore {α : Type} (f : Store → Heap → FileTree → α × Store × Heap × FileTree)
    (s : EnvironmentState) : Option α × EnvironmentState :=
  match s.store with
  | none => (none, s)
  | some store =>
    let (a, store, h, tree) := f store s.heap s.files.tree
    (some a, { s with heap := h, store := some store, files := { s.files with tree := tree } })

/-- Brings the writes of the store, if there is one, to its database. -/
def syncStore (s : EnvironmentState) : Except StorageError Unit × EnvironmentState :=
  let (r, s) := s.onStore fun store h tree =>
    let (r, store, tree) := store.syncIn tree .good
    (r, store, h, tree)
  (r.getD (.ok ()), s)

/-! ## Contexts -/

def worker (s : EnvironmentState) (channel : Nat) : WorkerContext :=
  s.workers.getD channel default

def updateWorker (s : EnvironmentState) (channel : Nat) (f : WorkerContext → WorkerContext) :
    EnvironmentState :=
  { s with workers := s.workers.modify channel f }

def context (s : EnvironmentState) : ContextId → ContextState
  | .own => s.own
  | .worker channel => (s.worker channel).context

def updateContext (s : EnvironmentState) (f : ContextState → ContextState) :
    ContextId → EnvironmentState
  | .own => { s with own := f s.own }
  | .worker channel => s.updateWorker channel fun w => { w with context := f w.context }

/-- Takes a descriptor for a run of a context. -/
def descriptor (id : ContextId) (source : String) (mode : RunMode) (s : EnvironmentState) :
    RunDescriptor × EnvironmentState :=
  let (run, l) := (s.context id).lifecycle.descriptor source mode
  (run, s.updateContext (fun c => { c with lifecycle := l }) id)

/-- Registers or unregisters a hook in a context. -/
def changeHook (id : ContextId) (add : Bool) (role : Role) (phase : Phase) (group : Nat)
    (spec : HookSpec) (s : EnvironmentState) : Except HookError Bool × EnvironmentState :=
  let (r, registry, mentions) :=
    (s.context id).registry.change s.mentions add role phase group spec
  (r, { s with mentions := mentions }.updateContext (fun c => { c with registry := registry }) id)

/-- Installs a plugin into the environment's own context. -/
def install (p : Plugin) (s : EnvironmentState) : Except HookError Unit × EnvironmentState :=
  let (r, registry, mentions) := p.install s.own.registry s.mentions s.nextGroup
  (r, { s with
    own := { s.own with registry := registry }
    mentions := mentions
    nextGroup := s.nextGroup + 1 })

/-- Keeps a plugin for the workers to come, once. -/
def addWorkerPlugin (p : Plugin) (s : EnvironmentState) : EnvironmentState :=
  if s.plugins.any (·.id == p.id) then s else { s with plugins := s.plugins ++ [p] }

/-- Installs a plugin here and, if that went well, keeps it for the workers to come. -/
def addPlugin (p : Plugin) (s : EnvironmentState) : Except HookError Unit × EnvironmentState :=
  match s.install p with
  | (.ok (), s) => (.ok (), s.addWorkerPlugin p)
  | (.error e, s) => (.error e, s)

/-! ## Interpreters -/

/-- Adds a factory, in place of one of the same kind. -/
def registerInterpreter (f : Factory) (s : EnvironmentState) : EnvironmentState :=
  { s with factories := s.factories.insert f.kind f }

/-- The factory of a kind. -/
def factory (s : EnvironmentState) (kind : String) : Except WorkerError Factory :=
  match s.factories.get? kind with
  | some f => .ok f
  | none => .error (.unknownInterpreter kind)

/-! ## Terminals -/

/-- Does something to a session; what it puts out goes to the display of its terminal. -/
def onSession {α : Type} (i : Nat) (f : Session → α × Session) (dflt : α) (s : EnvironmentState) :
    α × EnvironmentState :=
  match s.sessions[i]? with
  | none => (dflt, s)
  | some t =>
    let (a, u) := f t
    let new := (u.surface.take (u.surface.length - t.surface.length)).reverse.flatten
    let before := (s.displays.get? t.id).getD ""
    (a, { s with
      sessions := s.sessions.setIfInBounds i u
      displays := s.displays.insert t.id (before ++ String.ofList new) })

/-- The number of the session of a worker's terminal. -/
def sessionOf? (s : EnvironmentState) (worker : UInt64) : Option Nat :=
  (s.terminals.find? (·.1 == worker)).map (·.2)

/-- The session of a worker's terminal. -/
def terminal? (s : EnvironmentState) (worker : UInt64) : Option Session := do
  s.sessions[← s.sessionOf? worker]?

/-- The text on the display of a terminal. -/
def display (s : EnvironmentState) (terminal : String) : String :=
  (s.displays.get? terminal).getD ""

/-- Begins a session for a worker that has none; its number. -/
def openTerminal (worker : UInt64) (terminal : String) (s : EnvironmentState) :
    Option Nat × EnvironmentState :=
  match s.sessionOf? worker with
  | some _ => (none, s)
  | none =>
    let session := s.sessions.size
    (some session, { s with
      sessions := s.sessions.push (.new terminal s.settings.terminalEcho)
      terminals := (worker, session) :: s.terminals })

/-- The terminal of a worker is detached. -/
def forgetTerminal (worker : UInt64) (s : EnvironmentState) : EnvironmentState :=
  { s with terminals := s.terminals.filter (·.1 != worker) }

end EnvironmentState
end WorkerHost
