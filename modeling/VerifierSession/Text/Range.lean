/-!
# Ranges of code points

A character class given by a table: a list of inclusive ranges of code points.
-/

namespace VerifierSession
namespace Text

/-- Whether a character's code point lies in one of the inclusive ranges. -/
def inRanges (ranges : List (Nat × Nat)) (c : Char) : Bool :=
  ranges.any fun r => decide (r.1 ≤ c.toNat) && decide (c.toNat ≤ r.2)

end Text
end VerifierSession
