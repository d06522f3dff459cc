/-!
# Ranges of characters

A class of characters is given by the ranges of its code points, both ends included.

## Main definitions

* `inRanges` — a character lies in one of the ranges
-/

namespace LocalizationMemory.Text

/-- The character lies in one of the ranges. -/
def inRanges (ranges : List (Nat × Nat)) (c : Char) : Bool :=
  ranges.any fun p => p.1 ≤ c.toNat && c.toNat ≤ p.2

end LocalizationMemory.Text
