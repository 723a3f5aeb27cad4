import MountShell.Text.Numeral

/-!
# Milliseconds

Times and spans of time in milliseconds. They are floats, infinite ones included. A sum that is
undefined, such as that of the two infinities, is a value of its own: it is neither before nor after
any other, and it stays undefined whatever is added to it.
-/

namespace MountShell

/-- A time or a span of time in milliseconds. -/
inductive Millis where
  | real (value : Float)
  /-- No time at all. Its sign can be seen in its bits only. -/
  | undefined (negative : Bool)
  deriving Repr

namespace Millis

instance : Zero Millis := ⟨real 0⟩

/-- The sum of two times. That of opposite infinities is undefined and negative; of two undefined
times the second one remains. -/
protected def add : Millis → Millis → Millis
  | real a, real b => if (a + b).isNaN then undefined true else real (a + b)
  | _, undefined negative => undefined negative
  | undefined negative, real _ => undefined negative

instance : Add Millis := ⟨Millis.add⟩

/-- Is one time before the other? -/
def isBefore : Millis → Millis → Bool
  | real a, real b => a < b
  | _, _ => false

instance : LT Millis := ⟨fun a b => a.isBefore b = true⟩

instance : DecidableLT Millis := fun a b => inferInstanceAs (Decidable (a.isBefore b = true))

/-- The time that a numeral denotes. -/
def ofNumeral : Text.RealNumeral → Millis
  | .notANumber negative => undefined negative
  | numeral => real numeral.toFloat

/-- Reads a time. -/
def read (s : String) : Option Millis :=
  (Text.readRealNumeral s).map ofNumeral

/-- A whole number of milliseconds. -/
def ofNat (n : Nat) : Millis := real (Float.ofNat n)

/-- How long to wait for a deadline when the given number of milliseconds has passed. -/
def wait (deadline : Millis) (passed : Nat) : UInt32 :=
  match deadline with
  | real value => (value - Float.ofNat passed).ceil.toUInt32
  | undefined _ => 0

/-- The bits of a time as a float. -/
def toBits : Millis → UInt64
  | real value => value.toBits
  | undefined negative => if negative then 0xFFF8000000000000 else 0x7FF8000000000000

end Millis

end MountShell
