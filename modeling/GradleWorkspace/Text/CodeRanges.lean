/-!
# Ranges of code points

A class of characters is a list of ranges of code points in increasing order, both ends of a
range included.  `inRanges` looks a code point up; it stops at the first range above the code
point, so that the frequent low code points are found early.
-/

namespace GradleWorkspace.Text

/-- Whether a code point lies in one of the ranges, which are in increasing order. -/
def inRanges : List (Nat × Nat) → Nat → Bool
  | [], _ => false
  | (first, last) :: rest, n =>
    if n < first then false else if n ≤ last then true else inRanges rest n

end GradleWorkspace.Text
