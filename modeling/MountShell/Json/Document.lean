import MountShell.Json.Basic
import MountShell.Json.Scalar

/-!
# Documents

Reading a whole JSON value. The brackets of lists and objects are read by `elements` and `members`,
whatever their items are; `value` uses them for values of any form, with a bound on how many
brackets may be open at once, and `Json.read` reads a text that holds one value and nothing else.
-/

namespace MountShell.Json

/-- The number of brackets that may be open at once. -/
def maxDepth : Nat := 127

namespace Reader

variable {α σ : Type}

/-- Reads up to the next item of a list, and tells whether there is one. The closing bracket stays
where it is. -/
def moreItems (first : Bool) : Reader Bool := do
  match ← peekPart with
  | none => failNext .endInList
  | some c =>
    if c = ']' then return false
    else if first then return true
    else if c = ',' then
      skip
      match ← peekPart with
      | none => failNext .endInValue
      | some d => if d = ']' then failNext .trailingComma else return true
    else failNext .expectedListEnd

/-- Reads up to the next field of an object, and tells whether there is one. The closing brace stays
where it is, and so does the quote of a field's name. -/
def moreFields (first : Bool) : Reader Bool := do
  match ← peekPart with
  | none => failNext .endInObject
  | some c =>
    if c = '}' then return false
    else if first then
      if c = '"' then return true else failNext .keyNotString
    else if c = ',' then
      skip
      match ← peekPart with
      | none => failNext .endInValue
      | some d =>
        if d = '"' then return true
        else if d = '}' then failNext .trailingComma
        else failNext .keyNotString
    else failNext .expectedObjectEnd

/-- Reads the colon after the name of a field. -/
def colon : Reader Unit := do
  match ← peekPart with
  | none => failNext .endInObject
  | some c => if c = ':' then skip else failNext .expectedColon

/-- Reads the bracket that closes a list. -/
def closeList : Reader Unit := do
  match ← peekPart with
  | none => failNext .endInList
  | some c =>
    if c = ']' then skip
    else if c = ',' then
      skip
      match ← peekPart with
      | some ']' => failNext .trailingComma
      | _ => failNext .trailingCharacters
    else failNext .trailingCharacters

/-- Reads the items of a list, at most the given number. -/
def itemsUpTo (item : Reader α) : Nat → Bool → Reader (List α)
  | 0, _ => failNext .endInList
  | n + 1, first => do
    if ← moreItems first then
      let x ← item
      let xs ← itemsUpTo item n false
      return x :: xs
    else return []

/-- Reads a list from its bracket on. -/
def elements (item : Reader α) : Reader (List α) := do
  skip
  let xs ← itemsUpTo item ((← left) + 1) true
  closeList
  return xs

/-- Reads the fields of an object, at most the given number. What a field does to the state so far
depends on its name and is read from its colon on. -/
def fieldsUpTo (field : σ → String → Reader σ) : Nat → Bool → σ → Reader σ
  | 0, _, _ => failNext .endInObject
  | n + 1, first, state => do
    if ← moreFields first then
      let name ← string
      let state ← field state name
      fieldsUpTo field n false state
    else return state

/-- Reads an object from its brace on. -/
def members (field : σ → String → Reader σ) (start : σ) : Reader σ := do
  skip
  let state ← fieldsUpTo field ((← left) + 1) true start
  skip
  return state

/-- Reads the fields of an object whose values are read by `inner`. -/
def object (inner : Reader Json) : Reader (List (String × Json)) :=
  members (fun fields name => do
    colon
    let field ← inner
    return fields ++ [(name, field)]) []

/-- Reads a value whose items and fields are read by `inner`; without `inner` no bracket may be
opened. -/
def part (inner : Option (Reader Json)) : Reader Json := do
  match ← peekPart with
  | none => failNext .endInValue
  | some c =>
    if c = 'n' then
      skip
      word ['u', 'l', 'l']
      return .null
    else if c = 't' then
      skip
      word ['r', 'u', 'e']
      return .bool true
    else if c = 'f' then
      skip
      word ['a', 'l', 's', 'e']
      return .bool false
    else if c = '-' || Text.isDigit c then return .number (← number)
    else if c = '"' then return .text (← string)
    else if c = '[' then
      match inner with
      | none => failNext .tooDeep
      | some inner => return .list (← elements inner)
    else if c = '{' then
      match inner with
      | none => failNext .tooDeep
      | some inner => return .object (← object inner)
    else failNext .expectedValue

/-- Reads a value in which no more than `depth` brackets are open at once. -/
def value : Nat → Reader Json
  | 0 => part none
  | depth + 1 => part (some (value depth))

/-- Reads a value that nothing but blanks follows. -/
def whole (reader : Reader α) : Reader α := do
  let x ← reader
  match ← peekPart with
  | none => return x
  | some _ => failNext .trailingCharacters

end Reader

/-- Reads a text that holds one JSON value. -/
def read (s : String) : Except Fault Json :=
  (Reader.whole (Reader.value maxDepth)).run s

end MountShell.Json
