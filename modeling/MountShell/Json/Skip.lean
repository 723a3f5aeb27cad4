import MountShell.Json.Document

/-!
# Passing over values

A value that nobody asks for is only checked for its outer form: its brackets may be nested to any
depth, its numbers may be of any size, and the halves of surrogate pairs may stand alone.
-/

namespace MountShell.Json.Reader

open Text (isDigit)

/-- Passes over a string after its opening quote, taking at most the given number of characters. -/
def skipStringFrom : Nat → Reader Unit
  | 0 => failHere .endInString
  | n + 1 => do
    match ← peek with
    | none => failHere .endInString
    | some c =>
      if c = '"' then skip
      else if c = '\\' then
        skip
        match ← peek with
        | none => failHere .endInString
        | some d =>
          if (simpleEscape? d).isSome then skip
          else if d = 'u' then
            skip
            let _ ← hexEscape
          else failNext .invalidEscape
        skipStringFrom n
      else if c.toNat < 0x20 then failHere .controlCharacter
      else
        skip
        skipStringFrom n

/-- Passes over a string from its opening quote on. -/
def skipString : Reader Unit := do
  skip
  skipStringFrom ((← left) + 1)

/-- Passes over an exponent from its `e` on. -/
def skipExponent : Reader Unit := do
  skip
  match ← peek with
  | some '+' | some '-' => skip
  | _ => pure ()
  match ← peek with
  | some c =>
    if isDigit c then
      let _ ← takeWhile isDigit
    else failNext .invalidNumber
  | none => failHere .invalidNumber

/-- Passes over an exponent, if there is one. -/
def skipExponentIfAny : Reader Unit := do
  match ← peek with
  | some 'e' | some 'E' => skipExponent
  | _ => pure ()

/-- Passes over a number without its sign. -/
def skipUnsigned : Reader Unit := do
  match ← peek with
  | none => failHere .invalidNumber
  | some c =>
    if c = '0' then
      skip
      match ← peek with
      | some d => if isDigit d then failNext .invalidNumber
      | none => pure ()
    else if isDigit c then
      let _ ← takeWhile isDigit
    else failNext .invalidNumber
  match ← peek with
  | some '.' =>
    skip
    let digits ← takeWhile isDigit
    if digits.isEmpty then failNext .invalidNumber
    skipExponentIfAny
  | _ => skipExponentIfAny

/-- Passes over a value other than a list or an object. -/
def skipScalar (c : Char) : Reader Unit := do
  if c = 'n' then
    skip
    word ['u', 'l', 'l']
  else if c = 't' then
    skip
    word ['r', 'u', 'e']
  else if c = 'f' then
    skip
    word ['a', 'l', 's', 'e']
  else if c = '-' then
    skip
    skipUnsigned
  else if isDigit c then skipUnsigned
  else if c = '"' then skipString
  else failNext .expectedValue

/-- The bracket that closes an open one. -/
def closing (bracket : Char) : Char := if bracket = '[' then ']' else '}'

/-- Passes over the name of a field, from its quote to its colon, if the open bracket is a brace. -/
def skipName (bracket : Char) : Reader Unit := do
  if bracket = '{' then
    match ← peekPart with
    | none => failNext .endInObject
    | some c => if c = '"' then skipString else failNext .keyNotString
    colon

/-- Closes brackets as long as they end, the innermost first. Gives the brackets that are still open
when another item follows, after passing over its name. `afterItem` tells whether an item has been
read since the innermost bracket was opened. -/
def closeOpen (afterItem : Bool) : List Char → Reader (List Char)
  | [] => return []
  | bracket :: outer => do
    match ← peekPart with
    | none => failNext (if bracket = '[' then .endInList else .endInObject)
    | some c =>
      if c = closing bracket then
        skip
        closeOpen true outer
      else if afterItem then
        if c = ',' then
          skip
          skipName bracket
          return bracket :: outer
        else failNext (if bracket = '[' then .expectedListEnd else .expectedObjectEnd)
      else
        skipName bracket
        return bracket :: outer

/-- Passes over values until no bracket is open, at most the given number of them. -/
def skipValues : Nat → List Char → Reader Unit
  | 0, _ => failNext .endInValue
  | n + 1, opened => do
    match ← peekPart with
    | none => failNext .endInValue
    | some c =>
      let opened ←
        if c = '[' || c = '{' then
          skip
          closeOpen false (c :: opened)
        else
          skipScalar c
          closeOpen true opened
      if opened.isEmpty then return () else skipValues n opened

/-- Passes over one value of any form. -/
def skipValue : Reader Unit := do
  skipValues ((← left) + 1) []

end MountShell.Json.Reader
