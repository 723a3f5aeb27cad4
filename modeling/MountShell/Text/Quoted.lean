import MountShell.Text.Printable

/-!
# Quoted text

The form in which a text is shown inside a message (`quoted`): between quotes, on one line, and so
that every character of it can be told. Quotes, backslashes and the ends of lines are escaped, and
characters that are not printable are shown by their numbers.
-/

namespace MountShell.Text

/-- The way a character is shown between quotes. -/
def shownChar (c : Char) : List Char :=
  if c = '"' || c = '\\' then ['\\', c]
  else if c = '\n' then ['\\', 'n']
  else if c = '\r' then ['\\', 'r']
  else if c = '\t' then ['\\', 't']
  else if c.toNat = 0 then ['\\', '0']
  else if isPrintable c then [c]
  else ['\\', 'u', '{'] ++ Nat.toDigits 16 c.toNat ++ ['}']

/-- The text between quotes. -/
def quoted (s : String) : String :=
  String.ofList ('"' :: s.toList.flatMap shownChar ++ ['"'])

end MountShell.Text
