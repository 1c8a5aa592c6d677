import WorkerHost.Shell.Basic
/-!
Expansion of variables: one pass from left to right, which replaces every dollar sign followed by a
name. What a variable holds is not looked at again.
-/

namespace WorkerHost.Shell

/-- A character of a variable's name. -/
def isNameChar (c : Char) : Bool :=
  c.isAlphanum || c == '_'

/-- A piece of a text: a reference to a variable or a plain character. -/
inductive Piece where
  | name (s : List Char)
  | char (c : Char)
  deriving DecidableEq

/-- The pieces of a text. `name?` holds the name under way after a dollar sign, in reverse. A dollar
sign without a name is a plain character. -/
def pieces : Option (List Char) → List Char → List Piece
  | none, [] => []
  | none, c :: rest => if c = '$' then pieces (some []) rest else .char c :: pieces none rest
  | some [], [] => [.char '$']
  | some name, [] => [.name name.reverse]
  | some name, c :: rest =>
    if isNameChar c then pieces (some (c :: name)) rest
    else
      (if name.isEmpty then .char '$' else .name name.reverse) ::
        if c = '$' then pieces (some []) rest else .char c :: pieces none rest

/-- The text of pieces, or the first name that no variable has. -/
def substitute (vars : Dict String) : List Piece → Except (List Char) (List Char)
  | [] => .ok []
  | .char c :: rest => (substitute vars rest).map (c :: ·)
  | .name n :: rest =>
    match vars.get? (String.ofList n) with
    | some v => (substitute vars rest).map (v.toList ++ ·)
    | none => .error n

/-- The error that a name is not defined. -/
def nameError (name : List Char) : InterpreterError :=
  ⟨"NameError", "name '" ++ String.ofList name ++ "' is not defined"⟩

/-- A text with its variables replaced by their values. -/
def expand (s : Shell) (text : List Char) : Except InterpreterError (List Char) :=
  (substitute s.vars (pieces none text)).mapError nameError

end WorkerHost.Shell
