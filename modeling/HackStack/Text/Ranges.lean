/-!
# Sets of characters

A property of characters is a list of inclusive ranges of code points in ascending order.
-/

namespace HackStack

/-- Inclusive ranges of code points, ascending. -/
abbrev CharRanges := List (Nat × Nat)

def CharRanges.holds (rs : CharRanges) (c : Char) : Bool :=
  rs.any fun r => r.1 ≤ c.toNat && c.toNat ≤ r.2

end HackStack
