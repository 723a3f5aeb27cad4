import MountShell.Decimal.Layout
import MountShell.Text.Numeral

/-!
# Numbers of JSON

The value of a number in a document (`Number`): a whole number if it is written as one and fits
into a machine word, else a float.

A float is computed from a significand and a power of ten, which is a single rounding only as long
as both are floats themselves. The significand holds the first digits that fit into a machine word
(`addDigits`), and `scaled?` brings it to its power.
-/

namespace MountShell.Json

open Binary (maxPower)

/-- The value of a number. -/
inductive Number where
  /-- A whole number no smaller than the least signed word and no larger than the largest word. -/
  | whole (value : Int)
  | real (value : Float)
  deriving Repr

/-- The value of a number without its sign. -/
inductive Magnitude where
  /-- A whole number no larger than the largest word. -/
  | whole (value : Nat)
  | real (value : Float)
  deriving Repr

/-- The bits of a machine word. -/
def wordBits : Nat := 64

/-- The largest significand. -/
def maxSignificand : Nat := Nat.pow 2 wordBits - 1

/-- Adds digits to a significand as long as it fits into a word, and counts those left over. -/
def addDigits : Nat → List Char → Nat × Nat
  | significand, [] => (significand, 0)
  | significand, c :: cs =>
    let larger := 10 * significand + Text.digitValue c
    if maxSignificand < larger then (significand, cs.length + 1) else addDigits larger cs

/-- A power of ten as a float. -/
def powerOfTen (n : Nat) : Float := Float.ofScientific 1 false n

/-- The float `x / 10 ^ n`. Where `10 ^ n` is no float, it is divided step by step. -/
def dividedBy (x : Float) (n : Nat) : Float :=
  if n ≤ maxPower then x / powerOfTen n
  else if x == 0 then x
  else dividedBy (x / powerOfTen maxPower) (n - maxPower)
termination_by n
decreasing_by
  have : 0 < maxPower := by decide
  omega

/-- The float `significand * 10 ^ exponent`, unless it is too large. -/
def scaled? (significand : Nat) (exponent : Int) : Option Float :=
  let x := Float.ofNat significand
  match exponent with
  | .ofNat n =>
    if n ≤ maxPower then
      let product := x * powerOfTen n
      if product.isFinite then some product else none
    else if significand = 0 then some x
    else none
  | .negSucc n => some (dividedBy x (n + 1))

/-- The number with a sign. Minus zero is a float, and so is a whole number below the least signed
word. -/
def Magnitude.withSign (negative : Bool) : Magnitude → Number
  | whole n =>
    if !negative then .whole n
    else if 0 < n ∧ n ≤ Nat.pow 2 (wordBits - 1) then .whole (-n)
    else .real (-Float.ofNat n)
  | real x => .real (if negative then -x else x)

/-- The text of a number. -/
def Number.text : Number → String
  | whole n => Text.showInt n
  | real x => writtenFloat x

end MountShell.Json
