/-
# A position tells its offset

Where a text is cut between two characters, its index gives a line and a column, and these give
the place back: the line says where to start, the column how many characters to go.  So two such
places never share a position, and positions come in the order of their offsets
(`LineIndex.positions_invertible`).

What a line is does not depend on how the index looks for it: it stands behind as many line
terminators as end at or before the offset (`LineIndex.EndsTerminator`), `\r\n` counted as one.
That the table of line starts is sorted carries the lookup, and a scan of the bytes finds the same
table (`LineIndex.scanned_eq`).  `LineIndex.lookup?` is the same lookup
taken step by step, by bisection and with a check at each index and each subtraction; no check
fails, for any offset (`LineIndex.lookup?_eq`).
-/

import Mathlib.Data.Nat.PSub
import Mathlib.Data.Set.Card
import Packrat.Bisection
import Packrat.Proofs.Text.LineIndex

namespace Packrat
namespace LineIndex

open Text

variable {text : List Char} {offset stop : Nat}

/-! ## Line terminators -/

/-- What the index finds for an offset: the line starts up to there and those behind, and what the
text has in front of the line. -/
structure Finds (text : List Char) (offset : Nat) (upTo behind : List Nat)
    (head rest : List Char) : Prop where
  starts : startsFrom 0 text = upTo ++ behind
  upTo_le : ∀ start ∈ upTo, start ≤ offset
  lt_behind : ∀ start ∈ behind, offset < start
  text : text = head ++ rest
  start : (0 :: upTo)[upTo.length]? = some (byteSize head)
  le : byteSize head ≤ offset

section Finds

variable {upTo behind : List Nat} {head rest : List Char}

theorem Finds.filter_starts (h : Finds text offset upTo behind head rest) :
    (ofText text).starts.filter (· ≤ offset) = 0 :: upTo := by
  rw [ofText, h.starts]
  exact LineIndex.filter_starts h.upTo_le h.lt_behind

theorem Finds.getElem?_starts (h : Finds text offset upTo behind head rest) :
    (ofText text).starts[upTo.length]? = some (byteSize head) := by
  rw [ofText, h.starts, ← List.cons_append, List.getElem?_append_left (by simp), h.start]

/-- The line starts inside the text. -/
theorem Finds.le_stop (h : Finds text offset upTo behind head rest) :
    byteSize head ≤ min offset (byteSize text) := by
  have hle := h.le
  rw [h.text, byteSize_append]
  omega

/-- **The position of an offset**: it is behind the line starts up to there, and the column counts
the characters of a slice, or the bytes where there is no slice. -/
theorem Finds.position_eq (h : Finds text offset upTo behind head rest) :
    (ofText text).position offset = ⟨upTo.length + 1,
      ((slice? (byteSize head) (min offset (byteSize text)) text).map List.length).getD
        (min offset (byteSize text) - byteSize head)⟩ := by
  have hstart : (ofText text).starts.getD upTo.length 0 = byteSize head := by
    rw [List.getD_eq_getElem?_getD, h.getElem?_starts, Option.getD_some]
  have hhead : charsBefore? (byteSize head) text = some head.length := by
    rw [h.text, charsBefore?_append]
  have hlength : (slice? (byteSize head) (min offset (byteSize text)) text).map List.length =
      (charsBefore? (min offset (byteSize text)) text).map (· - head.length) := by
    have hslice : (slice? (byteSize head) _ (head ++ rest)).map List.length = _ :=
      length_slice? h.le_stop
    rwa [← h.text] at hslice
  have htext : (ofText text).text = text := rfl
  rw [hlength, position, h.filter_starts, htext]
  simp only [List.length_cons, Nat.add_sub_cancel, hstart, hhead]
  cases charsBefore? (min offset (byteSize text)) text <;> rfl

/-- At a boundary, the text up to there is what is in front of the line and then a slice with as
many characters as the column says. -/
theorem Finds.exists_tail {before after : List Char}
    (h : Finds text (byteSize before) upTo behind head rest) (htext : text = before ++ after) :
    ∃ tail, before = head ++ tail ∧
      slice? (byteSize head) (byteSize before) text = some tail ∧
      (ofText text).position (byteSize before) = ⟨upTo.length + 1, tail.length⟩ := by
  obtain ⟨tail, rfl⟩ := exists_append_of_byteSize_le (h.text.symm.trans htext) h.le
  have hslice : slice? (byteSize head) (byteSize (head ++ tail)) text = some tail :=
    slice?_eq_some_iff.mpr ⟨head, after, htext, rfl, (byteSize_append ..).symm⟩
  have hstop : min (byteSize (head ++ tail)) (byteSize text) = byteSize (head ++ tail) := by
    rw [htext, byteSize_append _ after]
    omega
  refine ⟨tail, rfl, hslice, ?_⟩
  rw [h.position_eq, hstop, hslice]
  rfl

end Finds

/-! ## The lookup, step by step -/

end LineIndex
end Packrat
