/-
# Running position

A cursor walks over a text character by character and knows the position it has
reached.  `\n` and `\r` start a new line, except that a `\n` right after a `\r`
belongs to the break before it.
-/

import Packrat.Text.Position

namespace Packrat

/-- The position reached, and whether the last character was `\r`. -/
structure Cursor where
  position : Position := {}
  afterReturn : Bool := false
  deriving DecidableEq, Repr

namespace Cursor

/-- Step over one character. -/
def step (k : Cursor) (c : Char) : Cursor where
  position :=
    if c = '\n' ∧ k.afterReturn then k.position
    else if c = '\n' ∨ c = '\r' then ⟨k.position.line + 1, 0⟩
    else ⟨k.position.line, k.position.column + 1⟩
  afterReturn := c = '\r'

/-- Step over a text. -/
def advance (k : Cursor) (text : List Char) : Cursor := text.foldl step k

end Cursor
end Packrat
