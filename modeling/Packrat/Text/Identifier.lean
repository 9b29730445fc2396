/-
# Characters of identifiers

Identifiers follow the Unicode rule: an `XID_Start` character, then `XID_Continue`
characters.  ASCII is decided directly: letters start, letters, digits and `_`
continue.
-/

import Packrat.Text.Identifier.StartRanges
import Packrat.Text.Identifier.ContinueRanges

namespace Packrat
namespace Text

/-- `c` is an ASCII character. -/
def isAscii (c : Char) : Bool := c.toNat < 128

/-- `c` may start an identifier (`_` may not; it is treated apart). -/
def isIdStart (c : Char) : Bool :=
  if isAscii c then c.isAlpha else inRanges idStartRanges c

/-- `c` may continue an identifier. -/
def isIdContinue (c : Char) : Bool :=
  if isAscii c then c.isAlphanum || c == '_' else inRanges idContinueRanges c

/-- Number of characters in the identifier run at the start of a text. -/
def idRun (cs : List Char) : Nat := (cs.takeWhile isIdContinue).length

end Text
end Packrat
