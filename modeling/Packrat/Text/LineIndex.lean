/-
# Line index

Maps byte offsets of a text to positions.  `\n`, `\r\n` and a lone `\r` each end a
line; the break belongs to the line it ends.
-/

import Packrat.Text.Position
import Packrat.Text.Measure

namespace Packrat

/-- The byte offset at which each line of a text starts, with the text. -/
structure LineIndex where
  starts : List Nat
  text : List Char
  deriving Repr

namespace LineIndex

/-- Starts of the lines after the first one, for a text that begins at byte
`offset`.  A `\r` that `\n` follows ends no line of its own. -/
def startsFrom : Nat → List Char → List Nat
  | _, [] => []
  | offset, c :: cs =>
    let next := offset + c.utf8Size
    if c = '\n' ∨ c = '\r' ∧ cs.head? ≠ some '\n' then next :: startsFrom next cs
    else startsFrom next cs

/-- The index of a text: line 1 starts at byte 0. -/
def ofText (text : List Char) : LineIndex := ⟨0 :: startsFrom 0 text, text⟩

/-- Number of lines; a break at the end of the text starts one more. -/
def lineCount (ix : LineIndex) : Nat := ix.starts.length

/-- The position of a byte offset.  An offset past the end stands at the end for
its column; one inside a character counts the bytes since the start of the line. -/
def position (ix : LineIndex) (offset : Nat) : Position :=
  let line := (ix.starts.filter (· ≤ offset)).length
  let start := ix.starts.getD (line - 1) 0
  let stop := min offset (Text.byteSize ix.text)
  let column := match Text.charsBefore? start ix.text, Text.charsBefore? stop ix.text with
    | some before, some upTo => upTo - before
    | _, _ => stop - start
  ⟨line, column⟩

/-- The byte offset at which a 1-based line starts. -/
def lineStart? (ix : LineIndex) : Nat → Option Nat
  | 0 => none
  | line + 1 => ix.starts[line]?

end LineIndex
end Packrat
