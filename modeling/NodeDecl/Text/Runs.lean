/-! # Sets of characters in runs

A set of characters is written as the lengths of its gaps and runs by turns: how many code points
are not in it, and how many after them are. All that follows the last run is not in it.
-/

namespace NodeDecl.Text

/-- Whether the code point at a distance from the start of the runs is in one of them. -/
def isInRuns : List (Nat × Nat) → Nat → Bool
  | [], _ => false
  | (gap, run) :: rest, n =>
    if n < gap then false
    else if n < gap + run then true
    else isInRuns rest (n - (gap + run))

end NodeDecl.Text
