/-
# Lines of a piece of text

A piece of text is cut at `\n`, at `\r\n` taken as one, and at a lone `\r` that does not
end the piece.  There is one more line than there are cuts.
-/

namespace Packrat
namespace Text

/-- Put a character before the first of some lines. -/
def consFirst (c : Char) : List (List Char) → List (List Char)
  | [] => [[c]]
  | l :: ls => (c :: l) :: ls

/-- The pieces between the occurrences of a character. -/
def splitOnChar (sep : Char) : List Char → List (List Char)
  | [] => [[]]
  | c :: cs => if c = sep then [] :: splitOnChar sep cs else consFirst c (splitOnChar sep cs)

/-- The lines of a piece of text, without what ends them. -/
def lines : List Char → List (List Char)
  | [] => [[]]
  | '\r' :: '\n' :: cs => [] :: lines cs
  | ['\r'] => [[]]
  | c :: cs => if c = '\n' ∨ c = '\r' then [] :: lines cs else consFirst c (lines cs)

end Text
end Packrat
