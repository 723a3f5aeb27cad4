import MountShell.Text.Split

/-!
# Lines

The lines of a text that is typed or piped in (`lines`). A line feed ends a line, and a carriage
return right before it belongs to the end as well. What follows the last line feed is a line of its
own unless it is empty; a carriage return at its end stays.
-/

namespace MountShell.Text

/-- The character that ends a line. -/
def lineFeed : Char := '\n'

/-- The character that may stand before a line feed. -/
def carriageReturn : Char := '\r'

/-- A line without the carriage return that came before its line feed. -/
def dropReturn (line : List Char) : List Char :=
  if line.getLast? = some carriageReturn then line.dropLast else line

/-- The lines among the pieces between line feeds; the last piece was not ended by one. -/
def linesOf : List (List Char) → List (List Char)
  | [] => []
  | [last] => if last.isEmpty then [] else [last]
  | line :: rest => dropReturn line :: linesOf rest

/-- The lines of a text. -/
def lines (s : String) : List String :=
  (linesOf (splitChars lineFeed s.toList)).map String.ofList

end MountShell.Text
