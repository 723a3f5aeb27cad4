/-!
# Faults of a JSON text

What can be wrong with a text that should be JSON, and where. A place is a line, counted from one,
and a column, counted in bytes of the UTF-8 form.

Faults fall into three classes: the text ends too early, it breaks the rules of JSON, or it is JSON
that does not have the form asked for.
-/

namespace MountShell.Json

/-- What is wrong. -/
inductive FaultKind where
  /-- The text ends where a value is due. -/
  | endInValue
  | endInList
  | endInObject
  | endInString
  | expectedColon
  | expectedListEnd
  | expectedObjectEnd
  /-- A word that begins like `null`, `true` or `false` goes on differently. -/
  | expectedWord
  | expectedValue
  | invalidEscape
  | invalidNumber
  | numberOutOfRange
  | controlCharacter
  | keyNotString
  /-- One half of a surrogate pair stands without the other. -/
  | loneSurrogate
  /-- No escape follows the first half of a surrogate pair. -/
  | endOfEscape
  | trailingComma
  | trailingCharacters
  /-- Too many brackets are open at once. -/
  | tooDeep
  /-- The value has another form than the one asked for. -/
  | form (report : String)
  deriving DecidableEq, Repr

namespace FaultKind

/-- The text that reports what is wrong. -/
def message : FaultKind → String
  | endInValue => "EOF while parsing a value"
  | endInList => "EOF while parsing a list"
  | endInObject => "EOF while parsing an object"
  | endInString => "EOF while parsing a string"
  | expectedColon => "expected `:`"
  | expectedListEnd => "expected `,` or `]`"
  | expectedObjectEnd => "expected `,` or `\x7d`"
  | expectedWord => "expected ident"
  | expectedValue => "expected value"
  | invalidEscape => "invalid escape"
  | invalidNumber => "invalid number"
  | numberOutOfRange => "number out of range"
  | controlCharacter => "control character (\\u0000-\\u001F) found while parsing a string"
  | keyNotString => "key must be a string"
  | loneSurrogate => "lone leading surrogate in hex escape"
  | endOfEscape => "unexpected end of hex escape"
  | trailingComma => "trailing comma"
  | trailingCharacters => "trailing characters"
  | tooDeep => "recursion limit exceeded"
  | form report => report

end FaultKind

/-- The classes of faults. -/
inductive FaultClass where
  /-- The text breaks the rules of JSON. -/
  | grammar
  /-- The value has another form than the one asked for. -/
  | form
  /-- The text ends too early. -/
  | tooShort
  deriving DecidableEq, Repr

/-- The class that a fault falls into. -/
def FaultKind.faultClass : FaultKind → FaultClass
  | endInValue | endInList | endInObject | endInString => .tooShort
  | form _ => .form
  | _ => .grammar

/-- What is wrong, and where. -/
structure Fault where
  kind : FaultKind
  line : Nat
  column : Nat
  deriving DecidableEq, Repr

/-- The text that reports a fault with its place. -/
def Fault.message (fault : Fault) : String :=
  fault.kind.message ++ " at line " ++ toString fault.line ++ " column " ++ toString fault.column

end MountShell.Json
