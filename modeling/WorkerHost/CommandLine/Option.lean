/-!
Options and words on a command line. A command says which options and how many words it takes;
`scan` sorts a line into both, and `help` describes the command.

An option is written `--name`, or by its letter as `-n`, and letters can stand together: `-ab`. A
value is the next argument or part of the same one: `--name=value`, `-nvalue`, `-n=value`. As an
argument of its own it can not start with a dash, unless it is just that dash. After `--`
everything is a word. Asking for help ends the scan at once, and so does the first mistake.
-/

namespace WorkerHost.CommandLine

/-- An option of a command. -/
structure OptionSpec where
  name : String
  letter : Option Char
  /-- what its value is called; none if it takes no value -/
  value : Option String
  /-- whether its value is the path of a file, which can not be empty -/
  isPath : Bool
  description : String

/-- A command or subcommand. -/
structure CommandSpec where
  /-- how it is called -/
  path : String
  description : String
  /-- the words it takes, with what they are called and stand for -/
  words : List (String × String)
  /-- the names of its subcommands, with what they do -/
  subcommands : List (String × String)
  options : List OptionSpec

/-- What ends a scan early. -/
inductive Refusal where
  | mistake
  | help

/-- What a scan has found so far: options with their values, and words. -/
structure Found where
  options : List (String × String)
  words : List String

namespace Found

def empty : Found := ⟨[], []⟩

/-- The value of an option. -/
def value? (f : Found) (name : String) : Option String :=
  (f.options.find? (·.1 == name)).map (·.2)

def has (f : Found) (name : String) : Bool :=
  (f.value? name).isSome

/-- Notes an option, which may come only once. -/
def note (f : Found) (o : OptionSpec) (value : String) : Except Refusal Found :=
  if f.has o.name || (o.isPath && value == "") then .error .mistake
  else .ok { f with options := f.options ++ [(o.name, value)] }

end Found

/-- What an argument looks like. -/
inductive Shape where
  | escape
  | long (name : List Char) (value : Option (List Char))
  | letters (cs : List Char)
  | word

/-- The shape of an argument. -/
def shapeOf (arg : String) : Shape :=
  match arg.toList with
  | ['-', '-'] => .escape
  | '-' :: '-' :: rest =>
    let name := rest.takeWhile (· != '=')
    .long name ((rest.drop name.length).tail?)
  | '-' :: c :: rest => .letters (c :: rest)
  | _ => .word

/-- Whether an argument can be the value of the option before it. -/
def isValue (arg : String) : Bool :=
  match shapeOf arg with
  | .word => true
  | _ => false

namespace CommandSpec

/-- Reads letters that stand together. An option that takes a value takes the rest of them, and
without a rest it is still open. -/
def readLetters (c : CommandSpec) (f : Found) : List Char → Except Refusal (Found × Option OptionSpec)
  | [] => .ok (f, none)
  | l :: rest =>
    if l == 'h' then .error .help
    else
      match c.options.find? (·.letter == some l) with
      | none => .error .mistake
      | some o =>
        match o.value, rest with
        | none, rest => do readLetters c (← f.note o "") rest
        | some _, [] => .ok (f, some o)
        | some _, '=' :: value | some _, value => do return (← f.note o (String.ofList value), none)

/-- Reads an option by its name. -/
def readLong (c : CommandSpec) (f : Found) (name : List Char) (value : Option (List Char)) :
    Except Refusal (Found × Option OptionSpec) :=
  if name == "help".toList then .error (if value.isNone then .help else .mistake)
  else
    match c.options.find? (·.name.toList == name) with
    | none => .error .mistake
    | some o =>
      match o.value, value with
      | none, none => do return (← f.note o "", none)
      | none, some _ => .error .mistake
      | some _, none => .ok (f, some o)
      | some _, some value => do return (← f.note o (String.ofList value), none)

/-- Adds a word, if the command takes one more. -/
def addWord (c : CommandSpec) (f : Found) (word : String) : Except Refusal Found :=
  if f.words.length < c.words.length then .ok { f with words := f.words ++ [word] }
  else .error .mistake

/-- Sorts arguments into options and words. At a command with subcommands the first word ends the
scan, and is left over together with what follows it. -/
def scan (c : CommandSpec) : Found → List String → Except Refusal (Found × List String)
  | f, [] => .ok (f, [])
  | f, arg :: rest =>
    match shapeOf arg with
    | .escape => do return (← rest.foldlM c.addWord f, [])
    | .word =>
      if c.subcommands.isEmpty then do scan c (← c.addWord f arg) rest
      else .ok (f, arg :: rest)
    | .long name value => do takeValue (← c.readLong f name value) rest
    | .letters cs => do takeValue (← c.readLetters f cs) rest
where
  /-- Gives an open option its value. -/
  takeValue : Found × Option OptionSpec → List String → Except Refusal (Found × List String)
    | (f, none), rest => scan c f rest
    | (_, some _), [] => .error .mistake
    | (f, some o), value :: rest =>
      if isValue value then do scan c (← f.note o value) rest else .error .mistake

/-! ## Help -/

/-- Lines of two columns; the first is as wide as its widest entry. -/
def columns (rows : List (String × String)) : String :=
  let width := rows.foldl (fun w row => max w row.1.length) 0
  String.join (rows.map fun (left, right) =>
    "  " ++ left ++ String.ofList (List.replicate (width - left.length + 2) ' ') ++ right ++ "\n")

/-- A part of a help text, if there is anything in it. -/
def part (title : String) (rows : List (String × String)) : String :=
  if rows.isEmpty then "" else "\n" ++ title ++ ":\n" ++ columns rows

/-- How an option is written. -/
def optionText (o : OptionSpec) : String :=
  let letter := match o.letter with
    | some l => "-" ++ String.singleton l ++ ", "
    | none => "    "
  letter ++ "--" ++ o.name ++ (o.value.map fun v => " <" ++ v ++ ">").getD ""

/-- The option that every command has. -/
def helpOption : OptionSpec := ⟨"help", some 'h', none, false, "Print help"⟩

/-- The description of a command. -/
def help (c : CommandSpec) : String :=
  let options := c.options ++ [helpOption]
  c.description ++ "\n\nUsage: " ++ c.path ++ " [OPTIONS]" ++
    String.join (c.words.map fun w => " <" ++ w.1 ++ ">") ++
    (if c.subcommands.isEmpty then "" else " <COMMAND>") ++ "\n" ++
    part "Commands" c.subcommands ++
    part "Arguments" (c.words.map fun (w, description) => ("<" ++ w ++ ">", description)) ++
    part "Options" (options.map fun o => (optionText o, o.description))

end CommandSpec
end WorkerHost.CommandLine
