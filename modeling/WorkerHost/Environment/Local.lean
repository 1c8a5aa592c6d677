import WorkerHost.Environment.Context
import WorkerHost.Shell.Run
import WorkerHost.Value.Display
/-!
Runs in an environment's own context: an interpreter that writes to the output and has no input.
-/

namespace WorkerHost

/-- An interpreter of an environment's own context. -/
structure LocalInterpreter where
  shell : Shell
  out : SurfaceSink
  err : SurfaceSink

/-- Computations with a local interpreter. -/
abbrev LocalM := StateT LocalInterpreter (StateM EnvironmentState)

namespace LocalInterpreter

/-- Writes the texts that a sink gives out. -/
def emit (texts : List String) : LocalM (Except StreamError Unit) := do
  modifyThe EnvironmentState fun s => texts.foldl (fun s text => s.print text) s
  return .ok ()

/-- A change of the sink for output. -/
def onOut (f : SurfaceSink → List String × SurfaceSink) : LocalM (Except StreamError Unit) := do
  let (texts, out) := f (← get).out
  modify fun l => { l with out := out }
  emit texts

/-- A change of the sink for errors. -/
def onErr (f : SurfaceSink → List String × SurfaceSink) : LocalM (Except StreamError Unit) := do
  let (texts, err) := f (← get).err
  modify fun l => { l with err := err }
  emit texts

/-- What the interpreter is bound to. -/
def console : Console LocalM where
  write data := onOut (·.write data)
  writeByte b := onOut (·.writeByte b)
  flush := onOut (·.flush)
  writeError data := onErr (·.write data)
  flushError := onErr (·.flush)
  readLine _ := return .ok none
  call f args := modifyGetThe EnvironmentState fun s =>
    let (r, h) := f.call s.heap args
    (r, { s with heap := h })
  display v := Binding.view (·.heap.display v)

/-- Runs code in the interpreter. -/
def execute (code : String) : LocalM (Except InterpreterError Value) := do
  let (r, shell) ← (← get).shell.run console code
  modify fun l => { l with shell := shell }
  return r

/-- What local runs are bound to. -/
def binding (config : Value) : Binding LocalM where
  context := .own
  config := config
  hasWorker := false
  interpreter? := do return some (← get).shell.debug
  execute code := do return some (← execute code)
  notify text := modifyThe EnvironmentState (·.note text)

/-- Runs code through the lifecycle of the environment. -/
def run (source code : String) (mode : RunMode) (config : Value) :
    LocalM (Except RunError Value) := do
  let b := binding config
  b.stage.run mode (← b.descriptor source mode) code

end LocalInterpreter

namespace EnvironmentState

/-- An interpreter of a kind for local runs. -/
def createInterpreter (s : EnvironmentState) (kind : String) (version : Option String)
    (config : Value) : Except WorkerError LocalInterpreter := do
  return ⟨← (← s.factory kind).create s.heap version config, .new, .new⟩

end EnvironmentState
end WorkerHost
