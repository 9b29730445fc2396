/-
# Character ranges

A character property beyond ASCII is a list of ranges of code points, both ends
included, in increasing order.
-/

namespace Packrat
namespace Text

/-- A range of code points, both ends included. -/
abbrev CharRange := Nat × Nat

/-- `c` lies in one of the ranges. -/
def inRanges (ranges : List CharRange) (c : Char) : Bool :=
  ranges.any fun r => r.1 ≤ c.toNat && c.toNat ≤ r.2

end Text
end Packrat
