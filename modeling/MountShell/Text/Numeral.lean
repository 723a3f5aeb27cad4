/-!
# Numerals

Reading the decimal forms in which numbers are given on a command line: whole numbers within the
bounds of a signed machine word (`readInt`), and real numbers with an optional fraction and
exponent (`readFloat`). Only the digits `0` to `9` count as digits.
-/

namespace MountShell.Text

/-- The digits `0` to `9`. -/
def isDigit (c : Char) : Bool := '0' ≤ c && c ≤ '9'

/-- The value of a digit. -/
def digitValue (c : Char) : Nat := c.toNat - '0'.toNat

/-- The number written by a list of digits. -/
def digitsValue (cs : List Char) : Nat :=
  cs.foldl (fun n c => 10 * n + digitValue c) 0

/-- The sign of a numeral and what follows it; no sign means plus. -/
def readSign : List Char → Bool × List Char
  | '+' :: cs => (false, cs)
  | '-' :: cs => (true, cs)
  | cs => (false, cs)

/-- Reads a whole number: an optional sign and at least one digit, and nothing else. The value has
to fit into a signed word of `bits` bits. -/
def readInt (bits : Nat) (s : String) : Option Int :=
  let (negative, digits) := readSign s.toList
  if digits.isEmpty || !digits.all isDigit then none
  else
    let magnitude : Int := digitsValue digits
    let value := if negative then -magnitude else magnitude
    let bound := Int.ofNat (Nat.pow 2 (bits - 1))
    if -bound ≤ value ∧ value < bound then some value else none

/-- The text of a whole number: its digits, after a minus sign if it is negative. -/
def showInt (n : Int) : String :=
  match n with
  | .ofNat k => String.ofList (Nat.toDigits 10 k)
  | .negSucc k => String.ofList ('-' :: Nat.toDigits 10 (k + 1))

/-- The parts of a numeral that denotes a real number. -/
inductive RealNumeral where
  /-- The value `mantissa * 10 ^ exponent`. -/
  | finite (negative : Bool) (mantissa : Nat) (exponent : Int)
  | infinite (negative : Bool)
  | notANumber (negative : Bool)
  deriving DecidableEq, Repr

/-- Reads the exponent of a numeral: nothing, or `e` or `E` with an optional sign and at least one
digit. -/
def readExponent : List Char → Option Int
  | [] => some 0
  | c :: cs =>
    if c = 'e' || c = 'E' then
      let (negative, digits) := readSign cs
      if digits.isEmpty || !digits.all isDigit then none
      else
        let magnitude : Int := digitsValue digits
        some (if negative then -magnitude else magnitude)
    else none

/-- Reads a real number: an optional sign, then `inf`, `infinity` or `nan` in letters of either
case, or digits with an optional point among them and an optional exponent. There has to be a digit
before or after the point. -/
def readRealNumeral (s : String) : Option RealNumeral :=
  let (negative, cs) := readSign s.toList
  let word := String.ofList (cs.map Char.toLower)
  if word = "inf" || word = "infinity" then some (.infinite negative)
  else if word = "nan" then some (.notANumber negative)
  else
    let whole := cs.takeWhile isDigit
    let rest := cs.dropWhile isDigit
    let (fraction, rest) :=
      match rest with
      | '.' :: more => (more.takeWhile isDigit, more.dropWhile isDigit)
      | _ => ([], rest)
    if whole.isEmpty && fraction.isEmpty then none
    else
      (readExponent rest).map fun exponent =>
        .finite negative (digitsValue (whole ++ fraction)) (exponent - fraction.length)

/-- The number of decimal digits of `n`, counting none for zero. -/
def decimalLength (n : Nat) : Nat :=
  if n = 0 then 0 else (Nat.toDigits 10 n).length

/-- The magnitude `mantissa * 10 ^ exponent`, rounded to the nearest float. A value that is certain
to lie beyond the largest float or below half the smallest one is not computed. -/
def scaleFloat (mantissa : Nat) (exponent : Int) : Float :=
  let size : Int := decimalLength mantissa + exponent
  if mantissa = 0 || size < -400 then 0
  else if 400 < size then 1 / 0
  else
    match exponent with
    | .ofNat k => Float.ofScientific mantissa false k
    | .negSucc k => Float.ofScientific mantissa true (k + 1)

/-- The float that a numeral denotes. -/
def RealNumeral.toFloat : RealNumeral → Float
  | .finite negative mantissa exponent =>
    let magnitude := scaleFloat mantissa exponent
    if negative then -magnitude else magnitude
  | .infinite negative => if negative then -(1 / 0) else 1 / 0
  | .notANumber _ => 0 / 0

/-- Reads a real number as a float. -/
def readFloat (s : String) : Option Float :=
  (readRealNumeral s).map RealNumeral.toFloat

end MountShell.Text
