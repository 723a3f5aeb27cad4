import MountShell.Json.Cursor
import MountShell.Json.Number

/-!
# Words, numbers and strings

The parts of JSON that hold no other parts. A number must not begin with a superfluous zero and must
not be too large for a float. A string must not hold a raw control character, and its escapes must
stand for whole characters.
-/

namespace MountShell.Json.Reader

open Text (isDigit digitValue)

/-- Reads the rest of a word, such as `ull` after an `n`. -/
def word : List Char → Reader Unit
  | [] => pure ()
  | c :: cs => do
    match ← peek with
    | none => failHere .endInValue
    | some d =>
      if d = c then
        skip
        word cs
      else failNext .expectedWord

/-- The digits of an exponent beyond which its value is not computed any further. -/
def maxExponent : Nat := Nat.pow 2 31 - 1

/-- The float `significand * 10 ^ exponent`, which must not be too large. -/
def scaled (significand : Nat) (exponent : Int) : Reader Float :=
  match scaled? significand exponent with
  | some x => pure x
  | none => failHere .numberOutOfRange

/-- Reads the exponent of a number, from its `e` on. Gives the value of the number, which is
`significand * 10 ^ shift` without the exponent. -/
def exponent (significand : Nat) (shift : Int) : Reader Float := do
  skip
  let negative ← takeSign
  match ← peek with
  | none => failHere .endInValue
  | some c =>
    if isDigit c then exponentDigits negative 0 (← left) else failNext .invalidNumber
where
  /-- Reads the sign of an exponent, if there is one, and tells whether it is a minus sign. -/
  takeSign : Reader Bool := do
    match ← peek with
    | some '+' => skip; return false
    | some '-' => skip; return true
    | _ => return false
  /-- Reads the digits of an exponent, at most the given number. A positive one is out of range as
  soon as its digits are, and a number with a negative one is zero then. -/
  exponentDigits (negative : Bool) (value : Nat) : Nat → Reader Float
    | 0 => finish negative value
    | n + 1 => do
      match ← peek with
      | some c =>
        if isDigit c then
          skip
          let value := 10 * value + digitValue c
          if maxExponent < value then
            if significand ≠ 0 && !negative then failHere .numberOutOfRange
            else
              let _ ← takeWhile isDigit
              return 0
          else exponentDigits negative value n
        else finish negative value
      | none => finish negative value
  /-- The value of a number whose exponent has been read. -/
  finish (negative : Bool) (value : Nat) : Reader Float :=
    scaled significand (shift + if negative then -(value : Int) else value)

/-- Reads an exponent if there is one, and gives the value of the number. -/
def exponentIfAny (significand : Nat) (shift : Int) : Reader Float := do
  match ← peek with
  | some 'e' | some 'E' => exponent significand shift
  | _ => scaled significand shift

/-- Reads the fraction of a number, from its point on, and an exponent. The digits before the point
have given a significand, and some may have been dropped. -/
def fraction (significand dropped : Nat) : Reader Float := do
  skip
  let digits ← takeWhile isDigit
  if digits.isEmpty then
    match ← peek with
    | none => failNext .endInValue
    | some _ => failNext .invalidNumber
  else
    let (significand, unused) := addDigits significand digits
    exponentIfAny significand (dropped - (digits.length - unused : Nat))

/-- Reads a number without its sign. -/
def magnitude : Reader Magnitude := do
  match ← peek with
  | none => failHere .endInValue
  | some '0' =>
    skip
    match ← peek with
    | some c => if isDigit c then failNext .invalidNumber else afterWhole 0 0
    | none => return .whole 0
  | some c =>
    if isDigit c then
      let digits ← takeWhile isDigit
      let (significand, dropped) := addDigits 0 digits
      afterWhole significand dropped
    else failNext .invalidNumber
where
  /-- Reads what follows the whole part of a number, some digits of which may have been dropped. -/
  afterWhole (significand dropped : Nat) : Reader Magnitude := do
    match ← peek with
    | some '.' => return .real (← fraction significand dropped)
    | some 'e' | some 'E' => return .real (← exponent significand dropped)
    | _ =>
      if dropped = 0 then return .whole significand
      else return .real (← scaled significand dropped)

/-- Reads a number. -/
def number : Reader Number := do
  match ← peek with
  | some '-' =>
    skip
    return (← magnitude).withSign true
  | _ => return (← magnitude).withSign false

/-- The value of a hexadecimal digit in letters of either case. -/
def hexValue? (c : Char) : Option Nat :=
  if '0' ≤ c && c ≤ '9' then some (c.toNat - '0'.toNat)
  else if 'a' ≤ c && c ≤ 'f' then some (c.toNat - 'a'.toNat + 10)
  else if 'A' ≤ c && c ≤ 'F' then some (c.toNat - 'A'.toNat + 10)
  else none

/-- The number written by four hexadecimal digits at the start of a text. -/
def fourHex? : List Char → Option Nat
  | a :: b :: c :: d :: _ => do
    let a ← hexValue? a
    let b ← hexValue? b
    let c ← hexValue? c
    let d ← hexValue? d
    return ((a * 16 + b) * 16 + c) * 16 + d
  | _ => none

/-- Reads the four hexadecimal digits of an escape. -/
def hexEscape : Reader Nat := fun cursor =>
  if cursor.bytesLeft < 4 then failAfter cursor.bytesLeft .endInString cursor
  else
    match fourHex? cursor.rest with
    | some n => .ok (n, cursor.advance.advance.advance.advance)
    | none => failAfter 4 .invalidEscape cursor

/-- Is the number the second half of a surrogate pair? -/
def isLowSurrogate (n : Nat) : Bool := 0xDC00 ≤ n && n ≤ 0xDFFF

/-- Is the number the first half of a surrogate pair? -/
def isHighSurrogate (n : Nat) : Bool := 0xD800 ≤ n && n ≤ 0xDBFF

/-- Passes over the given character, which the second half of a surrogate pair needs. -/
def expectEscape (c : Char) : Reader Unit := do
  match ← peek with
  | none => failHere .endInString
  | some d => if d = c then skip else failNext .endOfEscape

/-- Reads the digits of an escape after its `u`, and a second escape if the two form a pair. -/
def unicodeEscape : Reader Char := do
  let n ← hexEscape
  if isLowSurrogate n then failHere .loneSurrogate
  else if isHighSurrogate n then
    expectEscape '\\'
    expectEscape 'u'
    let m ← hexEscape
    if isLowSurrogate m then
      return Char.ofNat (0x10000 + (n - 0xD800) * 0x400 + (m - 0xDC00))
    else failHere .loneSurrogate
  else return Char.ofNat n

/-- The character that an escape of one character stands for. -/
def simpleEscape? (c : Char) : Option Char :=
  if c = '"' || c = '\\' || c = '/' then some c
  else if c = 'b' then some (Char.ofNat 0x08)
  else if c = 'f' then some (Char.ofNat 0x0C)
  else if c = 'n' then some '\n'
  else if c = 'r' then some '\r'
  else if c = 't' then some '\t'
  else none

/-- Reads an escape after its backslash. -/
def escape : Reader Char := do
  match ← peek with
  | none => failHere .endInString
  | some c =>
    match simpleEscape? c with
    | some d =>
      skip
      return d
    | none =>
      if c = 'u' then
        skip
        unicodeEscape
      else failNext .invalidEscape

/-- Reads a string after its opening quote, taking at most the given number of characters. -/
def stringFrom : Nat → Reader (List Char)
  | 0 => failHere .endInString
  | n + 1 => do
    match ← peek with
    | none => failHere .endInString
    | some c =>
      if c = '"' then
        skip
        return []
      else if c = '\\' then
        skip
        let d ← escape
        let rest ← stringFrom n
        return d :: rest
      else if c.toNat < 0x20 then failNext .controlCharacter
      else
        skip
        let rest ← stringFrom n
        return c :: rest

/-- Reads a string from its opening quote on. -/
def string : Reader String := do
  skip
  let cs ← stringFrom ((← left) + 1)
  return String.ofList cs

end MountShell.Json.Reader
