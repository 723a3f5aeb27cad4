import MountShell.Environment
import MountShell.Text.Split

/-!
# References to variables

A text may refer to variables as `$NAME`, `${NAME}` and `$?`. `Piece.split` cuts a
text into references and other text; `substitute` puts values in place of the references. A value is
taken as it stands and not looked through again, and a reference to an unknown name stays as it is
written.
-/

namespace MountShell

/-- A part of a text. -/
inductive Piece where
  /-- Text that refers to nothing. -/
  | literal (text : List Char)
  /-- A reference to `name`, with the way it is written. -/
  | reference (name : List Char) (written : List Char)
  deriving DecidableEq, Repr

namespace Piece

/-- The characters of a piece. -/
def written : Piece → List Char
  | literal text => text
  | reference _ text => text

/-- Cuts a text into pieces. A dollar sign starts a reference if a brace, a question mark or a name
follows; a brace that is never closed makes the rest of the text literal. -/
def split : List Char → List Piece
  | [] => []
  | '$' :: '{' :: rest =>
    match _h : Text.splitOnceChars '}' rest with
    | none => [literal ('$' :: '{' :: rest)]
    | some (name, after) => reference name ('$' :: '{' :: name ++ ['}']) :: split after
  | '$' :: '?' :: rest => reference ['?'] ['$', '?'] :: split rest
  | '$' :: rest =>
    let name := rest.takeWhile isNameChar
    if name.isEmpty then literal ['$'] :: split rest
    else reference name ('$' :: name) :: split (rest.dropWhile isNameChar)
  | c :: rest => literal [c] :: split rest
termination_by cs => cs.length
decreasing_by
  · have := Text.length_lt_of_splitOnceChars _h
    simp only [List.length_cons]
    omega
  · simp only [List.length_cons]
    omega
  · simp only [List.length_cons]
    omega
  · have := (List.dropWhile_suffix isNameChar (l := rest)).length_le
    simp only [List.length_cons]
    omega
  · simp only [List.length_cons]
    omega

end Piece

/-- The value of a name: that of an assignment made earlier on the line, else that of the
environment. -/
def lookup (env : Environment) (locals : List (String × String)) (name : String) (draws : Draws) :
    Option String × Draws :=
  match NameMap.find? name locals with
  | some value => (some value, draws)
  | none => env.get name draws

/-- What a piece stands for. -/
def Piece.expand (env : Environment) (locals : List (String × String)) (draws : Draws) :
    Piece → List Char × Draws
  | .literal text => (text, draws)
  | .reference name written =>
    let (value, draws) := lookup env locals (String.ofList name) draws
    (match value with
     | some value => value.toList
     | none => written, draws)

/-- What a list of pieces stands for, one after the other. -/
def Piece.expandAll (env : Environment) (locals : List (String × String)) :
    List Piece → Draws → List Char × Draws
  | [], draws => ([], draws)
  | piece :: pieces, draws =>
    let (text, draws) := piece.expand env locals draws
    let (rest, draws) := expandAll env locals pieces draws
    (text ++ rest, draws)

/-- The text with each reference to a known name replaced by its value. -/
def substitute (env : Environment) (locals : List (String × String)) (text : String)
    (draws : Draws) : String × Draws :=
  let (cs, draws) := Piece.expandAll env locals (Piece.split text.toList) draws
  (String.ofList cs, draws)

end MountShell
