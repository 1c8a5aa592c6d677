/-!
A terminal session turns keystrokes into line reads. While a read is pending, keys are echoed and
collected until a carriage return completes the line, and program output waits so that it never
mixes with the echo. Keys that come while no read is pending are held for the next one.

`surface` is everything that has gone to the display so far, with every bare newline turned into
carriage return and newline; `ends` is how the reads so far have ended.
-/

namespace WorkerHost

/-- What a session is doing. -/
inductive SessionState where
  | idle
  | reading
  | writing
  deriving DecidableEq

def SessionState.text : SessionState → String
  | idle => "idle"
  | reading => "reading"
  | writing => "writing"

/-- The text with a carriage return before each newline that none precedes, and whether it ends in a
carriage return; `afterReturn` says so of the text before it. -/
def translateNewlines (afterReturn : Bool) : List Char → List Char × Bool
  | [] => ([], afterReturn)
  | c :: rest =>
    let (out, after) := translateNewlines (c == '\r') rest
    (if c == '\n' && !afterReturn then '\r' :: c :: out else c :: out, after)

/-- A terminal session. -/
structure Session where
  id : String
  /-- whether prompts are shown -/
  echo : Bool
  state : SessionState
  /-- the characters typed so far, the last one first -/
  typed : List Char
  /-- the read that waits for a line -/
  pending : Option Nat
  /-- output that waits for the line to end -/
  queued : List String
  /-- keys held for the next read -/
  typeahead : List Char
  /-- whether the display stands after a carriage return -/
  afterReturn : Bool
  /-- what has gone to the display, the last piece first -/
  surface : List (List Char)
  /-- the number of the next read -/
  nextRead : Nat
  /-- the reads that have ended, the last one first: with a line, or without one as another read
  took their place -/
  ends : List (Nat × Option String)

namespace Session

/-- Deletes the last character of the line. -/
def backspace : Char := '\x7f'

/-- Completes the line. -/
def enter : Char := '\r'

/-- What deletes a character on the display: a step to the left and one character less. -/
def erase : List Char := ['\x1b', '[', 'D', '\x1b', '[', 'P']

def new (id : String) (echo : Bool) : Session :=
  ⟨id, echo, .idle, [], none, [], [], false, [], 0, []⟩

/-- The line typed so far. -/
def line (s : Session) : String :=
  String.ofList s.typed.reverse

/-- All that has gone to the display. -/
def screen (s : Session) : List Char :=
  s.surface.reverse.flatten

/-- Puts a piece on the display. -/
def emit (s : Session) (data : List Char) : Session :=
  if data.isEmpty then s
  else
    let (out, after) := translateNewlines s.afterReturn data
    { s with surface := out :: s.surface, afterReturn := after }

/-- Ends the pending read with a line or without one. -/
def endRead (s : Session) (line : Option String) : Session :=
  match s.pending with
  | some read => { s with pending := none, ends := (read, line) :: s.ends }
  | none => s

/-- The carriage return: the line ends, its read is over, and what was queued comes out. -/
def completeLine (s : Session) : Session :=
  let s := s.emit ['\r', '\n']
  let s := { s.endRead (some s.line) with typed := [], state := .writing }
  let s := s.queued.foldl (fun s piece => s.emit piece.toList) s
  { s with queued := [], state := .idle }

/-- A key during a read. -/
def key (s : Session) (c : Char) : Session :=
  if c = backspace then
    match s.typed with
    | [] => s
    | _ :: rest => { s with typed := rest }.emit erase
  else if c = enter then s.completeLine
  else { s with typed := c :: s.typed }.emit [c]

/-- A key at any time: held if no read is pending. -/
def inputKey (s : Session) (c : Char) : Session :=
  if s.state = .reading then s.key c else { s with typeahead := s.typeahead ++ [c] }

/-- Keystrokes. -/
def input (s : Session) (data : String) : Session :=
  data.toList.foldl inputKey s

/-- A whole line and the key that ends it. -/
def feedLine (s : Session) (data : String) : Session :=
  (s.input data).input "\r"

/-- Gives held keys to the pending read until it is over; the rest stay held. -/
def replay (s : Session) : List Char → Session
  | [] => { s with typeahead := [] }
  | c :: rest => if s.state = .reading then (s.key c).replay rest else { s with typeahead := c :: rest }

/-- Begins a read; one that is still pending ends without a line. -/
def beginRead (s : Session) (prompt : Option String) : Nat × Session :=
  let read := s.nextRead
  let s := { s.endRead none with
    nextRead := read + 1, pending := some read, typed := [], state := .reading }
  let s := if s.echo then s.emit (prompt.getD "").toList else s
  (read, s.replay s.typeahead)

/-- Program output: it waits while a line is being typed. -/
def write (s : Session) (data : String) : Session :=
  if s.state = .reading then { s with queued := s.queued ++ [data] } else s.emit data.toList

/-- How a read has ended, if it has. -/
def endOf? (s : Session) (read : Nat) : Option (Option String) :=
  (s.ends.find? (·.1 == read)).map (·.2)

end Session
end WorkerHost
