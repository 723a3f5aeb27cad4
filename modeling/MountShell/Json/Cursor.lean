import MountShell.Json.Fault

/-!
# Reading from left to right

A `Cursor` is what is left of a text together with the place reached in it, and a `Reader` takes
characters from a cursor and gives a value or a fault. A fault is placed either at the cursor
(`failHere`) or one byte further on, at the character that offends (`failNext`).
-/

namespace MountShell.Json

/-- The rest of a text, the line it starts on and the bytes of that line before it. -/
structure Cursor where
  rest : List Char
  line : Nat := 1
  column : Nat := 0
  deriving DecidableEq, Repr

namespace Cursor

/-- The cursor at the start of a text. -/
def ofString (s : String) : Cursor where
  rest := s.toList

/-- The place after a character. -/
def placeAfter (line column : Nat) (c : Char) : Nat × Nat :=
  if c = '\n' then (line + 1, 0) else (line, column + c.utf8Size)

/-- The cursor after its first character. -/
def advance (cursor : Cursor) : Cursor :=
  match cursor.rest with
  | [] => cursor
  | c :: rest =>
    let (line, column) := placeAfter cursor.line cursor.column c
    { rest, line, column }

/-- The place `bytes` bytes after a given one, or the end of the text if that comes first. -/
def placeAfterBytes : List Char → Nat → Nat → Nat → Nat × Nat
  | [], _, line, column => (line, column)
  | c :: rest, bytes, line, column =>
    if bytes = 0 then (line, column)
    else if bytes < c.utf8Size then (line, column + bytes)
    else
      let (line, column) := placeAfter line column c
      placeAfterBytes rest (bytes - c.utf8Size) line column

/-- The number of bytes that are left. -/
def bytesLeft (cursor : Cursor) : Nat :=
  cursor.rest.foldr (fun c n => c.utf8Size + n) 0

end Cursor

/-- Reads a value from a cursor. -/
abbrev Reader := StateT Cursor (Except Fault)

namespace Reader

variable {α : Type}

/-- A fault `bytes` bytes further on. -/
def failAfter (bytes : Nat) (kind : FaultKind) : Reader α := fun cursor =>
  let (line, column) := Cursor.placeAfterBytes cursor.rest bytes cursor.line cursor.column
  .error { kind, line, column }

/-- A fault at the place reached. -/
def failHere (kind : FaultKind) : Reader α := fun cursor =>
  .error { kind, line := cursor.line, column := cursor.column }

/-- A fault at the next byte. -/
def failNext (kind : FaultKind) : Reader α := failAfter 1 kind

/-- The next character, which stays where it is. -/
def peek : Reader (Option Char) := fun cursor => .ok (cursor.rest.head?, cursor)

/-- Passes over one character. -/
def skip : Reader Unit := fun cursor => .ok ((), cursor.advance)

/-- The next character, which is passed over. -/
def next : Reader (Option Char) := fun cursor => .ok (cursor.rest.head?, cursor.advance)

/-- The blanks that JSON allows between its parts. -/
def isSpace (c : Char) : Bool :=
  c = ' ' || c = '\n' || c = '\t' || c = '\r'

/-- The cursor after the characters of the class `p` at its start. -/
def advanceWhile (p : Char → Bool) : List Char → Cursor → Cursor
  | [], cursor => cursor
  | c :: cs, cursor => if p c then advanceWhile p cs cursor.advance else cursor

/-- Passes over characters of the class `p`, and gives them. -/
def takeWhile (p : Char → Bool) : Reader (List Char) := fun cursor =>
  .ok (cursor.rest.takeWhile p, advanceWhile p cursor.rest cursor)

/-- Passes over blanks, and gives the character after them, which stays where it is. -/
def peekPart : Reader (Option Char) := do
  let _ ← takeWhile isSpace
  peek

/-- The number of characters that are left. -/
def left : Reader Nat := fun cursor => .ok (cursor.rest.length, cursor)

/-- The value that a reader finds in a text, or the first fault. -/
def run (reader : Reader α) (s : String) : Except Fault α :=
  match reader (Cursor.ofString s) with
  | .ok (value, _) => .ok value
  | .error fault => .error fault

end Reader

end MountShell.Json
