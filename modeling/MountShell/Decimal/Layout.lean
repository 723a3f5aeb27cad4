import MountShell.Decimal.Shortest

/-!
# Written floats

The text of a float (`writtenFloat`): the digits of its shortest decimal with a point among them, or
in front of an exponent where the point would be far away from the digits.
-/

namespace MountShell

namespace Decimal

/-- The most zeros that stand between the point and the first digit of the number. -/
def maxLeadingZeros : Nat := 4

/-- The most digits that stand before the point. -/
def maxWholeDigits : Nat := 16

/-- The exponent of a number in scientific form, with its sign. -/
def exponentText (e : Int) : List Char :=
  match e with
  | .ofNat n => 'e' :: '+' :: Nat.toDigits 10 n
  | .negSucc n => 'e' :: '-' :: Nat.toDigits 10 (n + 1)

/-- The text of a number with a point after its first digit and the exponent `e`; a point that no
digit follows is left out. -/
def scientific (digits : List Char) (e : Int) : List Char :=
  match digits with
  | [] => []
  | [c] => c :: exponentText e
  | c :: cs => c :: '.' :: cs ++ exponentText e

/-- The text of a number. There is a digit on either side of a point. -/
def toText (d : Decimal) : List Char :=
  let digits := Nat.toDigits 10 d.digits
  let point : Int := d.exponent + digits.length
  if point < -maxLeadingZeros || maxWholeDigits < point then scientific digits (point - 1)
  else if point ≤ 0 then '0' :: '.' :: List.replicate (-point).toNat '0' ++ digits
  else if d.exponent < 0 then
    digits.take point.toNat ++ '.' :: digits.drop point.toNat
  else digits ++ List.replicate d.exponent.toNat '0' ++ ['.', '0']

end Decimal

/-- The text of a finite float. -/
def writtenFloat (x : Float) : String :=
  let magnitude := Binary.ofFloat x
  let digits :=
    if magnitude.significand = 0 then ['0', '.', '0'] else magnitude.shortest.toText
  String.ofList (if x.toBits.toNat / Nat.pow 2 63 = 1 then '-' :: digits else digits)

end MountShell
