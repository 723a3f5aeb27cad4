import MountShell.Text.Blank

/-!
# Tokens of a command line

A command line is a sequence of words and redirection operators. A word consists of segments, which
differ in how they are written: bare, between single or double quotes, or as one escaped character.

Main definitions: `Token`, the scanner `Token.scan`, and `Token.render`, which writes tokens as a
line.

The scanner takes one character at a time. Between characters its state says what it is inside of
(`Scanner.Mode`), which segments the open word has and which bare characters are not yet part of a
segment.
-/

namespace MountShell

/-- What a redirection does with its target. -/
inductive RedirectMode where
  /-- The target is read, written `<`. -/
  | read
  /-- The target is replaced, written `>`. -/
  | overwrite
  /-- The target is added to, written `>>`. -/
  | append
  deriving DecidableEq, Repr

/-- How a segment of a word is written. -/
inductive Quoting where
  | bare
  | single
  | double
  /-- One character after a backslash. -/
  | escaped
  deriving DecidableEq, Repr

/-- A part of a word that is written in one way. -/
structure Segment where
  text : String
  quoting : Quoting
  deriving DecidableEq, Repr

/-- A word or a redirection operator. -/
inductive Token where
  | word (segments : List Segment)
  | redirect (mode : RedirectMode)
  deriving DecidableEq, Repr

namespace Scanner

/-- What the next character is inside of. -/
inductive Mode where
  /-- Inside nothing. -/
  | plain
  /-- Right after a backslash outside quotes. -/
  | escape
  /-- Inside single quotes, after the given text. -/
  | single (text : List Char)
  /-- Inside double quotes, after the given text. -/
  | double (text : List Char)
  /-- Right after a backslash inside double quotes, after the given text. -/
  | doubleEscape (text : List Char)
  /-- After one or more of the same angle bracket. -/
  | angle (bracket : Char) (mode : RedirectMode)
  deriving DecidableEq, Repr

/-- The state between two characters. -/
structure State where
  mode : Mode := .plain
  /-- The finished segments of the open word. -/
  word : List Segment := []
  /-- Bare characters of the open word that follow its finished segments. -/
  bare : List Char := []
  deriving DecidableEq, Repr

namespace State

/-- The segments of the open word, with the bare characters as the last one. -/
def segments (s : State) : List Segment :=
  if s.bare.isEmpty then s.word else s.word ++ [⟨String.ofList s.bare, .bare⟩]

/-- The token of the open word. A word without any character is no token. -/
def wordToken (s : State) : List Token :=
  if s.segments.any fun segment => !segment.text.isEmpty then [.word s.segments] else []

/-- The state after a segment is finished. -/
def push (s : State) (text : List Char) (quoting : Quoting) : State where
  word := s.segments ++ [⟨String.ofList text, quoting⟩]

/-- One character outside quotes, escapes and operators. -/
def stepPlain (s : State) (c : Char) : State × List Token :=
  if Text.isBlank c then ({}, s.wordToken)
  else if c = '\'' then ({ mode := .single [], word := s.segments }, [])
  else if c = '"' then ({ mode := .double [], word := s.segments }, [])
  else if c = '\\' then ({ s with mode := .escape }, [])
  else if c = '>' then ({ mode := .angle '>' .overwrite }, s.wordToken)
  else if c = '<' then ({ mode := .angle '<' .read }, s.wordToken)
  else ({ s with mode := .plain, bare := s.bare ++ [c] }, [])

/-- One character: the state after it and the tokens that it completes. -/
def step (s : State) (c : Char) : State × List Token :=
  match s.mode with
  | .plain => s.stepPlain c
  | .escape => (s.push [c] .escaped, [])
  | .single text =>
    if c = '\'' then (s.push text .single, []) else ({ s with mode := .single (text ++ [c]) }, [])
  | .double text =>
    if c = '"' then (s.push text .double, [])
    else if c = '\\' then ({ s with mode := .doubleEscape text }, [])
    else ({ s with mode := .double (text ++ [c]) }, [])
  | .doubleEscape text =>
    if c = '\\' || c = '"' then ({ s with mode := .double (text ++ [c]) }, [])
    else ({ s with mode := .double (text ++ ['\\', c]) }, [])
  | .angle bracket mode =>
    if c = bracket then
      ({ s with mode := .angle bracket (if bracket = '>' then .append else mode) }, [])
    else
      let (after, tokens) := ({} : State).stepPlain c
      (after, .redirect mode :: tokens)

/-- The tokens that the end of the line completes. An open quote is closed, and a backslash with
nothing after it stands for itself. -/
def finish (s : State) : List Token :=
  match s.mode with
  | .plain => s.wordToken
  | .escape => { s with bare := s.bare ++ ['\\'] }.wordToken
  | .single text => (s.push text .single).wordToken
  | .double text => (s.push text .double).wordToken
  | .doubleEscape text => (s.push (text ++ ['\\']) .double).wordToken
  | .angle _ mode => [.redirect mode]

/-- The tokens that a text completes and those that its end completes. -/
def run : State → List Char → List Token
  | s, [] => s.finish
  | s, c :: cs =>
    let (after, tokens) := s.step c
    tokens ++ after.run cs

end State

end Scanner

namespace Token

/-- The tokens of a line. -/
def scan (line : String) : List Token :=
  ({} : Scanner.State).run line.toList

/-- The characters that stand for a text inside double quotes. -/
def escapeDouble : List Char → List Char
  | [] => []
  | c :: cs => if c = '\\' || c = '"' then '\\' :: c :: escapeDouble cs else c :: escapeDouble cs

end Token

/-- The way an operator is written. -/
def RedirectMode.render : RedirectMode → List Char
  | .read => ['<']
  | .overwrite => ['>']
  | .append => ['>', '>']

/-- The way a segment is written. -/
def Segment.render (segment : Segment) : List Char :=
  match segment.quoting with
  | .bare => segment.text.toList
  | .single => '\'' :: segment.text.toList ++ ['\'']
  | .double => '"' :: Token.escapeDouble segment.text.toList ++ ['"']
  | .escaped => '\\' :: segment.text.toList

namespace Token

/-- The way a token is written. -/
def render : Token → List Char
  | word segments => segments.flatMap Segment.render
  | redirect mode => mode.render

/-- The line of the given tokens, with a space between each two of them. -/
def renderAll (tokens : List Token) : String :=
  String.ofList (List.intercalate [' '] (tokens.map render))

end Token

end MountShell
