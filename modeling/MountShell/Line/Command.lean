import MountShell.Line.References
import MountShell.Line.Token

/-!
# Command lines

What a line asks for: assignments, the words of a command, and redirections. `CommandLine.parse`
never fails. A redirection operator takes the word right after it as its target; an operator that is
followed by another one or by nothing asks for nothing. Words of the form `NAME=VALUE` before the
command are assignments, and references in later words see them.
-/

namespace MountShell

/-- A `NAME=VALUE` before the command. -/
structure Assignment where
  name : String
  value : String
  /-- Some part of the word is quoted or escaped. -/
  quoted : Bool
  deriving DecidableEq, Repr

/-- A target and what is done with it. -/
structure Redirection where
  target : String
  mode : RedirectMode
  deriving DecidableEq, Repr

/-- What a line asks for. -/
structure CommandLine where
  assignments : List Assignment := []
  args : List String := []
  redirections : List Redirection := []
  deriving DecidableEq, Repr

namespace CommandLine

/-- Does the line ask for nothing? -/
def isEmpty (line : CommandLine) : Bool :=
  line.assignments.isEmpty && line.args.isEmpty && line.redirections.isEmpty

/-- The names and values of the assignments, in order. -/
def exports (line : CommandLine) : List (String × String) :=
  line.assignments.map fun a => (a.name, a.value)

end CommandLine

/-- References are replaced in bare and double-quoted segments only. -/
def Quoting.substitutes : Quoting → Bool
  | .bare | .double => true
  | .single | .escaped => false

/-- The text that a word stands for. -/
def expandWord (env : Environment) (locals : List (String × String)) :
    List Segment → Draws → String × Draws
  | [], draws => ("", draws)
  | segment :: segments, draws =>
    let (text, draws) :=
      if segment.quoting.substitutes then substitute env locals segment.text draws
      else (segment.text, draws)
    let (rest, draws) := expandWord env locals segments draws
    (text ++ rest, draws)

/-- The name that a word assigns to: its first segment is bare and starts with a valid name and an
equals sign. -/
def assignedName? : List Segment → Option String
  | ⟨text, .bare⟩ :: _ =>
    match Text.splitOnce '=' text with
    | some (name, _) => if isValidName name then some name else none
    | none => none
  | _ => none

/-- What is known when part of a line has been read. -/
structure CommandLine.Reading where
  line : CommandLine := {}
  /-- The values of the names assigned so far. -/
  locals : List (String × String) := []
  /-- The command has begun, so that no assignment can follow. -/
  begun : Bool := false
  /-- An operator that still waits for its target. -/
  pending : Option RedirectMode := none
  draws : Draws

namespace CommandLine

/-- Reads one more word. -/
def Reading.addWord (p : Reading) (env : Environment) (word : List Segment) : Reading :=
  let (text, draws) := expandWord env p.locals word p.draws
  match p.pending with
  | some mode =>
    { p with
      line := { p.line with redirections := p.line.redirections ++ [⟨text, mode⟩] }
      pending := none
      draws }
  | none =>
    match if p.begun then none else assignedName? word with
    | some name =>
      let value :=
        match Text.splitOnce '=' text with
        | some (_, value) => value
        | none => ""
      let quoted := word.any fun segment => segment.quoting ≠ .bare
      { p with
        line := { p.line with assignments := p.line.assignments ++ [⟨name, value, quoted⟩] }
        locals := NameMap.insert name value p.locals
        draws }
    | none =>
      { p with
        line := { p.line with args := p.line.args ++ [text] }
        begun := true
        draws }

/-- Reads one more token. -/
def Reading.add (p : Reading) (env : Environment) : Token → Reading
  | .redirect mode => { p with pending := some mode }
  | .word segments => p.addWord env segments

/-- What a list of tokens asks for in an environment. -/
def ofTokens (env : Environment) (tokens : List Token) (draws : Draws) : CommandLine × Draws :=
  let p := tokens.foldl (fun (p : Reading) token => p.add env token) { draws }
  (p.line, p.draws)

/-- What a line asks for in an environment. -/
def parse (env : Environment) (line : String) (draws : Draws) : CommandLine × Draws :=
  ofTokens env (Token.scan line) draws

end CommandLine

end MountShell
