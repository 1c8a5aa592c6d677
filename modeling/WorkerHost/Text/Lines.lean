/-!
Lines of a text. A line ends at a newline, which a single carriage return may precede; the last
line needs no newline, and a newline at the very end opens no further line.
-/

namespace WorkerHost.Text

/-- The line without the one carriage return that may end it. -/
def dropReturn (line : List Char) : List Char :=
  match line.getLast? with
  | some '\r' => line.dropLast
  | _ => line

/-- The lines of a text: every piece between newlines but the last was ended by a newline and loses
the carriage return before it; the last piece is a line only if it holds a character. -/
def lines (s : List Char) : List (List Char) :=
  let pieces := s.splitOn '\n'
  let last := pieces.getLast?.getD []
  pieces.dropLast.map dropReturn ++ if last.isEmpty then [] else [last]

end WorkerHost.Text
