/-
# Where the recognisers are asked

The reading of a text comes to places, one behind the other: to the start of the text, or behind
its interpreter line, and from each place to the one behind what the recogniser takes there, as a
lexeme or as a fault (`Lexeme.Reaches`).  These places and the items are the same thing told twice:

* at each place one item is read, the one of the recogniser (`Reaches.items_eq`);
* each item but the interpreter line was read at such a place (`exists_reaches`).
-/

import Packrat.Proofs.Lexeme.Scan
import Packrat.Proofs.Text.Measure

namespace Packrat
namespace Lexeme

/-- Number of characters of the interpreter line, 0 where there is none. -/
def lineSize (text : List Char) : Nat := (shebangSize? text).getD 0

/-- The item of the interpreter line. -/
def lineItems (text : List Char) : List Item :=
  (shebangSize? text).toList.map fun n => .ok ⟨.shebang, text.take n, 0⟩

/-- What a recogniser sees of the text before it, last character first: the interpreter line is
hidden from it. -/
def seenBehind (text pre : List Char) : List Char := (pre.drop (lineSize text)).reverse

/-- Reading the text comes to a place, with `pre` before it and the other part behind it. -/
inductive Reaches (text : List Char) : List Char → List Char → Prop where
  | start : Reaches text (text.take (lineSize text)) (text.drop (lineSize text))
  | step {pre : List Char} {c : Char} {cs : List Char} : Reaches text pre (c :: cs) →
    Reaches text (pre ++ c :: cs.take (scan (seenBehind text pre) c cs).more)
      (cs.drop (scan (seenBehind text pre) c cs).more)

/-- The item that is read at a place. -/
def itemAt (before : List Char) (start : Nat) (c : Char) (cs : List Char) : Item :=
  match (scan before c cs).result with
  | .ok kind => .ok ⟨kind, c :: cs.take (scan before c cs).more, start⟩
  | .error f => .error (f, start)

/-- One item is read at a place, and the others behind it. -/
theorem itemsFrom_cons (before : List Char) (start : Nat) (c : Char) (cs : List Char) :
    itemsFrom before start [] (c :: cs) = itemAt before start c cs ::
      itemsFrom ((c :: cs.take (scan before c cs).more).reverse ++ before)
        (start + Text.byteSize (c :: cs.take (scan before c cs).more)) []
        (cs.drop (scan before c cs).more) := by
  cases hresult : (scan before c cs).result with
  | ok kind => simp only [itemsFrom_of_ok hresult, itemAt, hresult]
  | error f => simp only [itemsFrom_of_error hresult, itemAt, hresult]

variable {text pre rest : List Char}

/-- The interpreter line is a part of the text. -/
theorem lineSize_le (text : List Char) : lineSize text ≤ text.length := by
  unfold lineSize shebangSize?
  split
  · dsimp only
    split
    · exact Nat.zero_le _
    · exact (List.takeWhile_sublist _).length_le
  · exact Nat.zero_le _

namespace Reaches

/-- The two parts are the text. -/
theorem append_eq (h : Reaches text pre rest) : pre ++ rest = text := by
  induction h with
  | start => exact List.take_append_drop ..
  | step _ ih => rwa [List.append_assoc, List.cons_append, List.take_append_drop]

/-- The interpreter line has been passed. -/
theorem lineSize_le_length (h : Reaches text pre rest) : lineSize text ≤ pre.length := by
  induction h with
  | start => exact Nat.le_of_eq (List.length_take_of_le (lineSize_le text)).symm
  | step _ ih =>
    rw [List.length_append]
    exact Nat.le_add_right_of_le ih

/-- What is read at a place is seen by the recognisers behind it. -/
theorem seenBehind_append (h : Reaches text pre rest) (part : List Char) :
    seenBehind text (pre ++ part) = part.reverse ++ seenBehind text pre := by
  rw [seenBehind, seenBehind, List.drop_append_of_le_length h.lineSize_le_length,
    List.reverse_append]

/-- At the first place nothing is seen of the interpreter line, and its item has been read. -/
theorem items_eq_start (text : List Char) : items text = lineItems text ++
    itemsFrom (seenBehind text (text.take (lineSize text)))
      (Text.byteSize (text.take (lineSize text))) [] (text.drop (lineSize text)) := by
  have hsee : seenBehind text (text.take (lineSize text)) = [] := by
    rw [seenBehind, List.drop_eq_nil_of_le (List.length_take_le ..), List.reverse_nil]
  rw [hsee]
  cases hsize : shebangSize? text with
  | none => simp [items_of_none hsize, lineItems, lineSize, hsize, Text.byteSize]
  | some n => simp [items_of_some hsize, lineItems, lineSize, hsize]

/-- **At each place, what is behind it has still to be read.** -/
theorem items_eq (h : Reaches text pre rest) : ∃ done, items text =
    done ++ itemsFrom (seenBehind text pre) (Text.byteSize pre) [] rest := by
  induction h with
  | start => exact ⟨lineItems text, items_eq_start text⟩
  | @step pre c cs h ih =>
    obtain ⟨done, hitems⟩ := ih
    refine ⟨done ++ [itemAt (seenBehind text pre) (Text.byteSize pre) c cs], ?_⟩
    rw [hitems, itemsFrom_cons, h.seenBehind_append, Text.byteSize_append, List.append_assoc,
      List.singleton_append]

/-- The item of a place is one of the text. -/
theorem exists_items {c : Char} {cs : List Char} (h : Reaches text pre (c :: cs)) :
    ∃ done more, items text =
      done ++ itemAt (seenBehind text pre) (Text.byteSize pre) c cs :: more := by
  obtain ⟨done, hitems⟩ := h.items_eq
  rw [itemsFrom_cons] at hitems
  exact ⟨done, _, hitems⟩

/-- What is read from a place on was read at places. -/
theorem exists_of_mem (h : Reaches text pre rest) {item : Item}
    (hitem : item ∈ itemsFrom (seenBehind text pre) (Text.byteSize pre) [] rest) :
    ∃ pre c cs, Reaches text pre (c :: cs) ∧
      item = itemAt (seenBehind text pre) (Text.byteSize pre) c cs := by
  induction hlength : rest.length using Nat.strongRecOn generalizing pre rest with
  | ind n ih =>
    cases rest with
    | nil =>
      rw [itemsFrom] at hitem
      cases hitem
    | cons c cs =>
      rw [itemsFrom_cons] at hitem
      rcases List.mem_cons.mp hitem with rfl | hitem
      · exact ⟨pre, c, cs, h, rfl⟩
      · rw [← h.seenBehind_append, ← Text.byteSize_append] at hitem
        refine ih _ ?_ h.step hitem rfl
        rw [← hlength, List.length_drop, List.length_cons]
        omega

end Reaches

/-- **Each item was read at a place**, that of the interpreter line apart. -/
theorem exists_reaches {item : Item} (h : item ∈ items text) : item ∈ lineItems text ∨
    ∃ pre c cs, Reaches text pre (c :: cs) ∧
      item = itemAt (seenBehind text pre) (Text.byteSize pre) c cs := by
  rw [Reaches.items_eq_start] at h
  rcases List.mem_append.mp h with h | h
  · exact .inl h
  · exact .inr (Reaches.start.exists_of_mem h)

end Lexeme
end Packrat
