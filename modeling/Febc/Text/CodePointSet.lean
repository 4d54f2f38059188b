/-!
# Sets of code points

A property of characters from the Unicode Character Database is kept as the sorted list of the
inclusive ranges of code points that have it. Membership is a scan of the ranges; the tables are
small, and the callers test only characters outside printable ASCII against them.

Main statement: `contains_iff`, a code point is in the set exactly when one of its ranges holds
it.
-/

namespace Febc

/-- A set of code points, as inclusive ranges in increasing order. -/
structure CodePointSet where
  ranges : List (Nat × Nat)

namespace CodePointSet

/-- Does a range of the set hold the code point? -/
def contains (s : CodePointSet) (c : Nat) : Bool :=
  s.ranges.any fun r => r.1 ≤ c && c ≤ r.2

theorem contains_iff (s : CodePointSet) (c : Nat) :
    s.contains c = true ↔ ∃ r ∈ s.ranges, r.1 ≤ c ∧ c ≤ r.2 := by
  simp [contains]

end CodePointSet

end Febc
