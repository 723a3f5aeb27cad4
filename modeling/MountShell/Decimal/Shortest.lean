/-!
# Shortest decimals

The decimal number that stands for a float where it is shown (`Binary.shortest`). A float is read
as a binary number, and a decimal number reads back to it if it lies in the interval of the reals
that are nearer to it than to its neighbours (`Binary.readsBack`). Of the decimals that read back,
those on the coarsest grid of powers of ten have the fewest digits, and the one nearest to the float
is taken, which is one of the two points beside it (`Binary.onGrid`).

All comparisons are made in whole numbers. The main statement is `shortest_spec`: on which grid the
decimal lies, and that it reads back.
-/

namespace MountShell

/-- The number `digits * 10 ^ exponent`. -/
structure Decimal where
  digits : Nat
  exponent : Int
  deriving DecidableEq, Repr

/-- The number `significand * 2 ^ exponent`, which is the magnitude of a float. -/
structure Binary where
  significand : Nat
  exponent : Int
  /-- The next smaller float is half as far away as the next larger one. -/
  closerBelow : Bool := false
  deriving DecidableEq, Repr

namespace Binary

/-- The bits of a float that hold its fraction. -/
def fractionBits : Nat := 52

/-- The magnitude of a finite float, from the fields of its bits: an exponent of zero marks the
numbers that are too small for a full significand. -/
def ofFloat (x : Float) : Binary :=
  let fractions := Nat.pow 2 fractionBits
  let bits := x.toBits.toNat
  let fraction := bits % fractions
  let exponent := bits / fractions % 2048
  if exponent = 0 then { significand := fraction, exponent := -1074 }
  else
    { significand := fractions + fraction
      exponent := exponent - 1075
      closerBelow := fraction = 0 && 1 < exponent }

/-- Four times the significand at the lower end of the interval that rounds to the number. -/
def lowerEnd (x : Binary) : Nat :=
  if x.closerBelow then 4 * x.significand - 1 else 4 * x.significand - 2

/-- Four times the significand at the upper end of the interval that rounds to the number. -/
def upperEnd (x : Binary) : Nat := 4 * x.significand + 2

/-- The factor that brings quarters of the last place of `x` to the common scale with `10 ^ k`. -/
def scale (x : Binary) (k : Int) : Nat :=
  Nat.pow 2 (x.exponent - 2).toNat * Nat.pow 10 (-k).toNat

/-- The factor that brings multiples of `10 ^ k` to the common scale with quarters of the last place
of `x`. -/
def gridScale (x : Binary) (k : Int) : Nat :=
  Nat.pow 2 (2 - x.exponent).toNat * Nat.pow 10 k.toNat

/-- Does the decimal number lie in the interval that rounds to `x`? The ends belong to it if the
significand is even, since a tie goes to the even neighbour. -/
def readsBack (x : Binary) (d : Decimal) : Bool :=
  let point := d.digits * x.gridScale d.exponent
  let low := x.lowerEnd * x.scale d.exponent
  let high := x.upperEnd * x.scale d.exponent
  if x.significand % 2 = 0 then low ≤ point && point ≤ high else low < point && point < high

/-- The multiples of `10 ^ k` just below and just above `x`, the nearer one first, and the even one
first if both are equally near. -/
def beside (x : Binary) (k : Int) : List Decimal :=
  let value := 4 * x.significand * x.scale k
  let below := value / x.gridScale k
  let middle := (2 * below + 1) * x.gridScale k
  if 2 * value < middle || (2 * value = middle && below % 2 = 0) then [⟨below, k⟩, ⟨below + 1, k⟩]
  else [⟨below + 1, k⟩, ⟨below, k⟩]

/-- The multiple of `10 ^ k` that reads back to `x`, the nearest one if there are several. -/
def onGrid (x : Binary) (k : Int) : Option Decimal :=
  (x.beside k).find? x.readsBack

/-- The exponent of the largest power of ten that is a float. -/
def maxPower : Nat := 308

/-- The number of the grids that are tried; the finest is closer than the floats are anywhere. -/
def gridCount : Nat := 633

/-- The number itself in decimal digits. -/
def exact (x : Binary) : Decimal :=
  match x.exponent with
  | .ofNat n => ⟨x.significand * Nat.pow 2 n, 0⟩
  | .negSucc n => ⟨x.significand * Nat.pow 5 (n + 1), x.exponent⟩

/-- The decimal number with the fewest digits that reads back to `x`. -/
def shortest (x : Binary) : Decimal :=
  ((List.range gridCount).findSome? fun (i : Nat) => x.onGrid (maxPower - i : Int)).getD x.exact

/-- The points beside a number on a grid are multiples of its power of ten. -/
theorem exponent_of_mem_beside {x : Binary} {k : Int} {d : Decimal} (h : d ∈ x.beside k) :
    d.exponent = k := by
  unfold beside at h
  grind

/-- What is found on a grid is a multiple of its power of ten, and it reads back. -/
theorem onGrid_spec {x : Binary} {k : Int} {d : Decimal} (h : x.onGrid k = some d) :
    d.exponent = k ∧ x.readsBack d = true :=
  ⟨exponent_of_mem_beside (List.mem_of_find?_eq_some h), List.find?_some h⟩

/-- What stands for a float reads back, and it lies on the coarsest of the grids on which there is
such a number beside the float.  If there is none on any of them, it is the float itself. -/
theorem shortest_spec (x : Binary) :
    (∃ i < gridCount, x.shortest.exponent = maxPower - (i : Int) ∧
        x.readsBack x.shortest = true ∧ ∀ j < i, x.onGrid (maxPower - (j : Int)) = none) ∨
      (x.shortest = x.exact ∧ ∀ i < gridCount, x.onGrid (maxPower - (i : Int)) = none) := by
  unfold shortest
  cases hfound : (List.range gridCount).findSome? fun (i : Nat) => x.onGrid (maxPower - i : Int)
    with
  | none =>
    rw [List.findSome?_eq_none_iff] at hfound
    exact .inr ⟨rfl, fun i hi => hfound i (List.mem_range.2 hi)⟩
  | some d =>
    obtain ⟨before, i, after, hrange, hi, hbefore⟩ := List.findSome?_eq_some_iff.1 hfound
    -- the grids are tried in order, so those before are the coarser ones
    rw [List.range_eq_range', List.range'_eq_append_iff] at hrange
    obtain ⟨n, -, rfl, hrest⟩ := hrange
    obtain ⟨rfl, hmore, -⟩ := List.range'_eq_cons_iff.1 hrest.symm
    rw [Nat.zero_add, Nat.mul_one] at hi
    have hlt : n < gridCount := Nat.lt_of_sub_pos hmore
    obtain ⟨hexponent, hreads⟩ := onGrid_spec hi
    exact .inl ⟨n, hlt, hexponent, hreads, fun j hj =>
      hbefore j (List.mem_range'_1.2 ⟨Nat.zero_le j, (Nat.zero_add n).symm ▸ hj⟩)⟩

end Binary

end MountShell
