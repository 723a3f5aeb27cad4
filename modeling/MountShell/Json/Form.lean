import MountShell.Json.Skip
import MountShell.Text.Quoted

/-!
# Values of a given form

Readers for values whose form is known beforehand: strings, truth values, lists, maps and records.
A value of another form is a fault of its own class, and it is found as soon as reading from left to
right reaches it.

A record is an object whose known fields occur at most once each, unknown fields being passed over,
or a list of the values of its fields in their order.
-/

namespace MountShell.Json.Reader

variable {α σ : Type}

/-- The report of a number where something else is expected. -/
def numberReport : Number → String
  | .whole n => "integer `" ++ Text.showInt n ++ "`"
  | .real x => "floating point `" ++ writtenFloat x ++ "`"

/-- The report of a string where something else is expected. -/
def textReport (s : String) : String := "string " ++ Text.quoted s

/-- The fault of a value that has another form than the one expected. A word, number or string is
read to its end first, and faults inside it come before the fault of form. -/
def wrongForm (expected : String) : Reader α := do
  let found ←
    match ← peek with
    | some 'n' =>
      skip
      word ['u', 'l', 'l']
      pure "null"
    | some 't' =>
      skip
      word ['r', 'u', 'e']
      pure "boolean `true`"
    | some 'f' =>
      skip
      word ['a', 'l', 's', 'e']
      pure "boolean `false`"
    | some '"' =>
      pure (textReport (← string))
    | some '[' => pure "sequence"
    | some '{' => pure "map"
    | some c =>
      if c = '-' || Text.isDigit c then pure (numberReport (← number))
      else failNext .expectedValue
    | none => failNext .expectedValue
  failHere (.form ("invalid type: " ++ found ++ ", expected " ++ expected))

/-- The character that a value begins with. -/
def valueStart : Reader Char := do
  match ← peekPart with
  | none => failNext .endInValue
  | some c => return c

/-- Reads a string. -/
def text : Reader String := do
  if (← valueStart) = '"' then string else wrongForm "a string"

/-- Reads a truth value. -/
def flag : Reader Bool := do
  match ← valueStart with
  | 't' =>
    skip
    word ['r', 'u', 'e']
    return true
  | 'f' =>
    skip
    word ['a', 'l', 's', 'e']
    return false
  | _ => wrongForm "a boolean"

/-- Reads a value or `null`. -/
def optional (reader : Reader α) : Reader (Option α) := do
  match ← peekPart with
  | some 'n' =>
    skip
    word ['u', 'l', 'l']
    return none
  | _ =>
    let x ← reader
    return some x

/-- Reads a list. -/
def listOf (item : Reader α) : Reader (List α) := do
  if (← valueStart) = '[' then elements item else wrongForm "a sequence"

/-- Reads a map from names; the last of several values under one name counts. -/
def mapOf (entry : Reader α) : Reader (List (String × α)) := do
  if (← valueStart) = '{' then
    members (fun entries name => do
      colon
      let value ← entry
      return NameMap.insert name value entries) []
  else wrongForm "a map"

/-- A field of a record that is put together in a state. -/
structure Field (σ : Type) where
  name : String
  /-- A record without the field is faulty. -/
  required : Bool
  /-- Has the field been read? -/
  known : σ → Bool
  /-- Reads the value of the field. -/
  read : σ → Reader σ

/-- The fault of a field that occurs a second time. It is placed where the next part of the text
begins, or behind a brace that closes the record right there. -/
def repeatedField (name : String) : Reader α := do
  match ← peekPart with
  | some '}' => skip
  | _ => pure ()
  failHere (.form ("duplicate field `" ++ name ++ "`"))

/-- Reads a field of a record from its colon on. -/
def recordField (fields : List (Field σ)) (state : σ) (name : String) : Reader σ := do
  match fields.find? fun field => field.name = name with
  | some field =>
    if field.known state then repeatedField name
    else
      colon
      field.read state
  | none =>
    colon
    skipValue
    return state

/-- Reads the values of fields in their order until the list ends, and counts them. -/
def fieldValues : List (Field σ) → Bool → σ → Reader (σ × Nat)
  | [], _, state => return (state, 0)
  | field :: fields, first, state => do
    if ← moreItems first then
      let (state, n) ← fieldValues fields false (← field.read state)
      return (state, n + 1)
    else return (state, 0)

/-- Reads a record with the given name and fields. -/
def record (name : String) (fields : List (Field σ)) (start : σ) : Reader σ := do
  let c ← valueStart
  let expected := "struct " ++ name
  if c = '[' then
    skip
    let (state, n) ← fieldValues fields true start
    closeList
    if (fields.drop n).any Field.required then
      failHere (.form ("invalid length " ++ toString n ++ ", expected " ++ expected ++ " with "
        ++ toString fields.length ++ " elements"))
    else return state
  else if c = '{' then
    let state ← members (recordField fields) start
    match fields.find? fun field => field.required && !field.known state with
    | some field => failHere (.form ("missing field `" ++ field.name ++ "`"))
    | none => return state
  else wrongForm expected

end MountShell.Json.Reader
