import WorkerHost.Text.Lines
import WorkerHost.Text.Words
/-!
Composing code: each fragment loses the indentation that its lines share and the blank lines at its
ends; then the fragments that are left are joined.
-/

namespace WorkerHost

open Text

/-- The longest common beginning of two texts. -/
def commonStart : List Char → List Char → List Char
  | a :: as, b :: bs => if a = b then a :: commonStart as bs else []
  | _, _ => []

/-- The blanks at the front of a line. -/
def indent (line : List Char) : List Char :=
  line.takeWhile isBlank

/-- The indentation that all lines share; lines of blanks do not count. -/
def sharedIndent (lines : List (List Char)) : List Char :=
  match (lines.filter (!allBlank ·)).map indent with
  | [] => []
  | first :: rest => rest.foldl commonStart first

/-- The lines without the blank ones at both ends. -/
def trimLines (lines : List (List Char)) : List (List Char) :=
  ((lines.dropWhile allBlank).reverse.dropWhile allBlank).reverse

/-- A line without an indentation. A line of blanks becomes empty. -/
def unindent (by' : List Char) (line : List Char) : List Char :=
  if allBlank line then []
  else if by'.isPrefixOf line then line.drop by'.length
  else trimStart line

/-- A text without the indentation that its lines share and without blank lines at its ends. -/
def dedentChars (code : List Char) : List Char :=
  let body := trimLines (lines code)
  ['\n'].intercalate (body.map (unindent (sharedIndent body)))

/-- A text without the indentation that its lines share and without blank lines at its ends. -/
def dedent (code : String) : String :=
  String.ofList (dedentChars code.toList)

/-- Fragments as one text: each of them dedented, the empty ones left out, joined by newlines. -/
def compose (fragments : List String) : String :=
  "\n".intercalate ((fragments.map dedent).filter (· != ""))

end WorkerHost
