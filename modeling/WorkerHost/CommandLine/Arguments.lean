import WorkerHost.CommandLine.Option
/-!
The command line of the program: `run` runs a script, `phases` lists the phases of a run, and `help`
describes both.
-/

namespace WorkerHost.CommandLine

/-! ## The commands -/

def settingsOption : OptionSpec :=
  ⟨"settings", none, some "SETTINGS", true, "Settings file (defaults to ./tether.toml when present)"⟩

/-- The program itself. -/
def program : CommandSpec where
  path := "tether"
  description := "Run embedded interpreters on worker threads"
  words := []
  subcommands := [("run", "Run a script"), ("phases", "List hook phases"),
    ("help", "Print this message or the help of the given subcommand(s)")]
  options := [settingsOption]

def runCommand : CommandSpec where
  path := "tether run"
  description := "Run a script"
  words := [("SCRIPT", "Script path or file:// URL")]
  subcommands := []
  options := [
    ⟨"interpreter", some 'i', some "INTERPRETER", false, "Interpreter kind"⟩,
    settingsOption,
    ⟨"version", none, some "VERSION", false, "Interpreter version"⟩,
    ⟨"config", some 'c', some "CONFIG", false, "Worker configuration (JSON or TOML)"⟩,
    ⟨"async", none, none, false, "Use the async run phases"⟩,
    ⟨"terminal", some 't', none, false, "Attach this terminal so the script can read input"⟩,
    ⟨"local", none, none, false, "Run in this process instead of a worker"⟩,
    ⟨"storage", none, some "STORAGE", false, "Expose the named key-value store to the worker"⟩]

def phasesCommand : CommandSpec where
  path := "tether phases"
  description := "List hook phases"
  words := []
  subcommands := []
  options := [settingsOption]

/-- The description of the command `help`. -/
def helpOfHelp : String :=
  "Print this message or the help of the given subcommand(s)\n\nUsage: tether help [COMMAND]...\n" ++
    CommandSpec.part "Arguments" [("[COMMAND]...", "Print help for the subcommand(s)")]

/-! ## What a line asks for -/

/-- What to run, and how. -/
structure RunArguments where
  script : String
  interpreter : Option String
  version : Option String
  config : Option String
  /-- whether the async phases are used, whatever the settings say -/
  async : Bool
  terminal : Bool
  /-- whether the script runs without a worker -/
  inProcess : Bool
  storage : Option String

inductive Command where
  | run (a : RunArguments)
  | phases

/-- A command and the settings file it is to use. -/
structure Arguments where
  settings : Option String
  command : Command

/-- The path that a script or configuration is read from; a URL names one after its scheme. -/
def pathOf (url : String) : String :=
  match url.splitOn "://" with
  | [_, path] => path
  | _ => url

/-- The files that a command reads besides its settings. -/
def Command.paths : Command → List String
  | run a => (a.script :: a.config.toList).map pathOf
  | phases => []

/-- What a command line comes to. -/
inductive Request where
  | perform (a : Arguments)
  | help (text : String)
  | mistake

/-- What a refused scan of a command comes to. -/
def Request.ofRefusal (c : CommandSpec) : Refusal → Request
  | .help => .help c.help
  | .mistake => .mistake

/-- The help that the words after `help` ask for. -/
def helpFor : List String → Request
  | [] => .help program.help
  | ["run"] => .help runCommand.help
  | ["phases"] => .help phasesCommand.help
  | ["help"] => .help helpOfHelp
  | _ => .mistake

/-- Scans a subcommand. Its own settings file comes before one that was named ahead of it. -/
def subcommand (c : CommandSpec) (outer : Found) (args : List String)
    (command : Found → Option Command) : Request :=
  match c.scan .empty args with
  | .error r => .ofRefusal c r
  | .ok (f, _) =>
    match command f with
    | some command =>
      .perform ⟨(f.value? settingsOption.name).or (outer.value? settingsOption.name), command⟩
    | none => .mistake

/-- What `run` is to do; it needs a script. -/
def runOf (f : Found) : Option Command := do
  return .run {
    script := ← f.words.head?
    interpreter := f.value? "interpreter"
    version := f.value? "version"
    config := f.value? "config"
    async := f.has "async"
    terminal := f.has "terminal"
    inProcess := f.has "local"
    storage := f.value? "storage" }

/-- What a command line asks for. -/
def Request.ofArguments (args : List String) : Request :=
  match program.scan .empty args with
  | .error r => .ofRefusal program r
  | .ok (f, "run" :: rest) => subcommand runCommand f rest runOf
  | .ok (f, "phases" :: rest) => subcommand phasesCommand f rest fun _ => some .phases
  | .ok (_, "help" :: rest) => helpFor rest
  | .ok _ => .mistake

end WorkerHost.CommandLine
