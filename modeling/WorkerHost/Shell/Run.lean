import WorkerHost.Shell.Expand
import WorkerHost.Text.Lines
import WorkerHost.Text.Words
/-!
Running scripts, one command a line:

* `print`, `eprint` write a line, `put` writes bytes one by one;
* `set` assigns a variable, `input` reads a line into one;
* `call` calls a function of a module, and its result goes to the variable `_`;
* `fail` raises an error.

Blank lines and lines that start with `#` are passed over. The first error ends the script.
-/

namespace WorkerHost.Shell

open Text

/-- The error of a line that can not be understood. -/
def syntaxError (line : Nat) (message : String) : InterpreterError :=
  ⟨"SyntaxError", "line " ++ toString line ++ ": " ++ message⟩

/-- The error of a stream that failed. -/
def streamError (e : StreamError) : InterpreterError :=
  ⟨"OSError", e.message⟩

/-- The value of a word of arguments. -/
def argument (word : List Char) : Value :=
  match int64? word with
  | some n => .int n
  | none =>
    match String.ofList word with
    | "true" => .bool true
    | "false" => .bool false
    | "null" => .null
    | s => .str s

/-- A text cut at its first space; without a space all of it is the first part. -/
def cutSpace (s : List Char) : List Char × List Char :=
  (splitOnce (· == ' ') s).getD (s, [])

/-- The command of a line and what follows it; none for a line that is passed over. -/
def command? (raw : List Char) : Option (List Char × List Char) :=
  let line := trimStart raw
  if line.isEmpty || line.head? == some '#' then none
  else some ((splitOnce isBlank line).getD (trimEnd line, []))

variable {m : Type → Type} [Monad m]

/-- Steps of a line: they work on the shell and may raise an error, which keeps what the shell is.
-/
abbrev LineM (m : Type → Type) := ExceptT InterpreterError (StateT Shell m)

/-- Does something to a stream. -/
def stream {α : Type} (x : m (Except StreamError α)) : LineM m α := do
  match ← (x : m _) with
  | .ok a => return a
  | .error e => throw (streamError e)

/-- Writes bytes one by one until one fails. -/
def putBytes (c : Console m) : List UInt8 → LineM m Unit
  | [] => return ()
  | b :: rest => do
    stream (c.writeByte b)
    putBytes c rest

/-- The function that a path of module and name leads to. -/
def lookup (s : Shell) (line : Nat) (path : List Char) : Except InterpreterError Function := do
  let (ns, name) ←
    match splitOnce (· == '.') path with
    | some cut => pure cut
    | none => throw (syntaxError line
        ("expected <module>.<function>, got '" ++ String.ofList path ++ "'"))
  let ns := String.ofList ns
  let name := String.ofList name
  match s.modules.get? ns with
  | none => throw ⟨"NameError", "no module named '" ++ ns ++ "'"⟩
  | some module =>
    match module.get? name with
    | none => throw ⟨"AttributeError", "module '" ++ ns ++ "' has no function '" ++ name ++ "'"⟩
    | some f => return f

/-- Calls a function with the words after its path. -/
def callFunction (c : Console m) (line : Nat) (rest : List Char) : LineM m Value := do
  match words rest with
  | [] => throw (syntaxError line "call needs a function")
  | path :: args =>
    match lookup (← get) line path with
    | .error e => throw e
    | .ok f =>
      match ← (c.call f (args.map argument) : m _) with
      | .error text => throw ⟨"RuntimeError", text⟩
      | .ok v => do
        let text ← (c.display v : m String)
        modify fun s => s.setVar "_" text
        return v

/-- Reads a line into a variable. -/
def input (c : Console m) (line : Nat) (rest : List Char) : LineM m Unit := do
  let (name, prompt) :=
    match splitOnce (· == ' ') rest with
    | some (name, prompt) => (name, some (String.ofList prompt))
    | none => (trimEnd rest, none)
  if name.isEmpty then throw (syntaxError line "input needs a variable name")
  stream c.flush
  match ← stream (c.readLine prompt) with
  | some text => modify fun s => s.setVar (String.ofList name) text
  | none => throw ⟨"EOFError", "EOF when reading a line"⟩

/-- Does a command; only `call` has a value. -/
def execute (c : Console m) (line : Nat) (cmd rest : List Char) : LineM m (Option Value) := do
  match String.ofList cmd with
  | "print" => do
    stream (c.write (String.ofList (rest ++ ['\n'])))
    return none
  | "eprint" => do
    stream (c.writeError (String.ofList (rest ++ ['\n'])))
    return none
  | "put" => do
    putBytes c (Text.Utf8.encode rest)
    return none
  | "set" => do
    let (name, value) := cutSpace rest
    if name.isEmpty then throw (syntaxError line "set needs a variable name")
    modify fun s => s.setVar (String.ofList name) (String.ofList value)
    return none
  | "input" => do
    input c line rest
    return none
  | "call" => return some (← callFunction c line rest)
  | "fail" =>
    let (kind, message) := cutSpace rest
    throw ⟨if kind.isEmpty then "Error" else String.ofList kind, String.ofList message⟩
  | other => throw (syntaxError line ("unknown command '" ++ other ++ "'"))

/-- Does what a line says. Its variables are replaced before the command is looked at. -/
def executeLine (c : Console m) (line : Nat) (raw : List Char) : LineM m (Option Value) := do
  match command? raw with
  | none => return none
  | some (cmd, rest) =>
    match (← get).expand rest with
    | .error e => throw e
    | .ok rest => execute c line cmd rest

/-- Does lines in turn, from a number on, and keeps the last value. -/
def executeLines (c : Console m) : Nat → Value → List (List Char) → LineM m Value
  | _, last, [] => return last
  | n, last, line :: rest => do
    let v ← executeLine c n line
    executeLines c (n + 1) (v.getD last) rest

/-- Runs a script; both streams are flushed at its end. -/
def script (c : Console m) (code : String) : LineM m Value := do
  let last ← executeLines c 1 .null (lines code.toList)
  stream c.flush
  stream c.flushError
  return last

/-- Runs a script in a shell: its value or error, and the shell after it. -/
def run (c : Console m) (code : String) (s : Shell) : m (Except InterpreterError Value × Shell) :=
  (script c code).run.run s

end WorkerHost.Shell
