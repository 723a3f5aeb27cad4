import MountShell.Json.Number
import MountShell.NameMap

/-!
# JSON values

The values that a JSON document can hold, and their compact text (`Json.compact`). An object is the
list of its fields as they are written, repeated ones included; `Json.field?` takes the last of
several fields of one name.
-/

namespace MountShell

/-- A JSON value. -/
inductive Json where
  | null
  | bool (value : Bool)
  | number (value : Json.Number)
  | text (value : String)
  | list (items : List Json)
  | object (fields : List (String × Json))
  deriving Repr

namespace Json

/-- The last value among the fields of the given name. -/
def lastField? (name : String) : List (String × Json) → Option Json
  | [] => none
  | (key, value) :: rest =>
    match lastField? name rest with
    | some later => some later
    | none => if key = name then some value else none

/-- The value of a field of an object. -/
def field? (name : String) : Json → Option Json
  | object fields => lastField? name fields
  | _ => none

/-- The hexadecimal digits below sixteen, in small letters. -/
def hexDigit (n : Nat) : Char :=
  if n < 10 then Char.ofNat ('0'.toNat + n) else Char.ofNat ('a'.toNat + (n - 10))

/-- The way a character is written inside a string: a quote, a backslash and the control characters
below the blank are escaped, the last in their short form where there is one. -/
def escapeChar (c : Char) : List Char :=
  if c = '"' then ['\\', '"']
  else if c = '\\' then ['\\', '\\']
  else if c = '\n' then ['\\', 'n']
  else if c = '\r' then ['\\', 'r']
  else if c = '\t' then ['\\', 't']
  else if c.toNat = 0x08 then ['\\', 'b']
  else if c.toNat = 0x0C then ['\\', 'f']
  else if c.toNat < 0x20 then
    ['\\', 'u', '0', '0', hexDigit (c.toNat / 16), hexDigit (c.toNat % 16)]
  else [c]

/-- The way a string is written. -/
def quote (s : String) : List Char :=
  '"' :: s.toList.flatMap escapeChar ++ ['"']

mutual

/-- The compact text of a value: no blanks, fields in their order. -/
def write : Json → List Char
  | null => "null".toList
  | bool true => "true".toList
  | bool false => "false".toList
  | number value => value.text.toList
  | text value => quote value
  | list items => '[' :: writeItems items ++ [']']
  | object fields => '{' :: writeFields fields ++ ['}']

/-- The texts of items, separated by commas. -/
def writeItems : List Json → List Char
  | [] => []
  | [item] => write item
  | item :: rest => write item ++ ',' :: writeItems rest

/-- The texts of fields, separated by commas. -/
def writeFields : List (String × Json) → List Char
  | [] => []
  | [(name, value)] => quote name ++ ':' :: write value
  | (name, value) :: rest => quote name ++ ':' :: write value ++ ',' :: writeFields rest

end

/-- The compact text of a value. -/
def compact (value : Json) : String :=
  String.ofList value.write

end Json

end MountShell
