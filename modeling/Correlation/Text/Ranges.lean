/-!
# Ranges of code points

A class of characters is given by the ranges of its code points, in ascending order and apart from
each other.
-/

namespace Correlation

/-- Whether a number lies in one of the ranges.  The ranges ascend, so the search ends at the first
one that starts above the number. -/
def inRanges : List (Nat × Nat) → Nat → Bool
  | [], _ => false
  | (lo, hi) :: rest, n => if n < lo then false else decide (n ≤ hi) || inRanges rest n

end Correlation
