/-!
# Ranges of characters

A class of characters that follows no simple rule is given by a table of the ranges of its code
points, and `inRanges` tells whether a character belongs to it.
-/

namespace MountShell.Text

/-- Does one of the ranges, each given by its first and its last code point, hold the character? -/
def inRanges (ranges : List (Nat × Nat)) (c : Char) : Bool :=
  ranges.any fun (first, last) => first ≤ c.toNat && c.toNat ≤ last

end MountShell.Text
