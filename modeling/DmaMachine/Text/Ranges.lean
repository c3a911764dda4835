/-!
# Ranges of characters

A class of characters is given by the ranges of their numbers, in ascending order.  `inRanges`
looks a number up in them, and stops at the first range above it.
-/

namespace DmaMachine

/-- Whether a number is in one of some ranges, which are in ascending order. -/
def inRanges : List (Nat × Nat) → Nat → Bool
  | [], _ => false
  | (first, last) :: ranges, n =>
      if n < first then false else decide (n ≤ last) || inRanges ranges n

/-- A number below the first range is in none. -/
theorem inRanges_of_lt {first last n : Nat} {ranges : List (Nat × Nat)} (h : n < first) :
    inRanges ((first, last) :: ranges) n = false := if_pos h

/-- A number of the first range. -/
theorem inRanges_of_mem_first {first last n : Nat} {ranges : List (Nat × Nat)} (h : first ≤ n)
    (h' : n ≤ last) : inRanges ((first, last) :: ranges) n = true := by
  simp [inRanges, Nat.not_lt.2 h, h']

/-- A number above the first range is looked up in the others. -/
theorem inRanges_of_gt {first last n : Nat} {ranges : List (Nat × Nat)} (h : first ≤ last)
    (h' : last < n) : inRanges ((first, last) :: ranges) n = inRanges ranges n := by
  simp [inRanges, Nat.not_lt.2 (Nat.le_trans h (Nat.le_of_lt h')), Nat.not_le.2 h']

end DmaMachine
