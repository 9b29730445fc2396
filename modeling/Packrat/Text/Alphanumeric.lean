/-
# Letters and numbers

A character is alphanumeric when Unicode calls it alphabetic or numeric.
-/

import Packrat.Text.AlphanumericRanges

namespace Packrat
namespace Text

/-- `c` is a letter or a number in any script. -/
def isAlphanumeric (c : Char) : Bool :=
  if c.toNat < 128 then c.isAlphanum else inRanges alphanumericRanges c

end Text
end Packrat
