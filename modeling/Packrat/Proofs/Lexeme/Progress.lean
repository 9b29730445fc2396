/-
# Reading always goes on

Each item of a text, lexeme or fault, takes the character where it begins and what its recogniser
has taken behind it, and the next one begins there (`Lexeme.advances_items`).  So the items begin
one behind the other, and there are no more of them than characters.

That they begin inside the text, and that a lexeme is as long as its recogniser says, is due to the
recognisers: none takes more than there is (`Lexeme.scan_fits`), also when it gives up.

| recogniser that gives up | has taken, behind the first character |
| --- | --- |
| string, character, number | nothing |
| byte string, byte | the opening quote |
| raw string | number signs and the opening quote |
| raw identifier | the number sign and the word |
| number signs that open nothing | all of them |
| block comment | the rest of the text |
| any other character | nothing |
-/

import Packrat.Proofs.Lexeme.LineBreak
import Packrat.Proofs.Lexeme.Number
import Packrat.Proofs.Lexeme.Reached
import Packrat.Proofs.Token.Layout

namespace Packrat
namespace Lexeme

open Text

/-! ## What is taken is there -/

variable {cs : List Char} {n : Nat}

/-- A size behind another one. -/
theorem add_le_length {k : Nat} (hn : n ≤ cs.length) (hk : k ≤ (cs.drop n).length) :
    n + k ≤ cs.length := by
  rw [List.length_drop] at hk
  omega

/-- What is read in front of `cs` is there. -/
def Reading.Fits (r : Reading) (cs : List Char) : Prop := r.more ≤ cs.length

namespace Reading.Fits

variable {r r' : Reading}

theorem ite {p : Prop} [Decidable p] (h : p → r.Fits cs) (h' : ¬ p → r'.Fits cs) :
    (if p then r else r').Fits cs := by
  split
  · next hp => exact h hp
  · next hp => exact h' hp

/-- A literal takes its opening mark, and its body if there is no fault in it. -/
theorem literal {opening : Nat} {body : Except LexFault (Kind × Nat)}
    (hopening : opening ≤ cs.length)
    (hbody : ∀ kind n, body = .ok (kind, n) → n ≤ (cs.drop opening).length) :
    (Reading.literal opening body).Fits cs := by
  cases body with
  | error f => exact hopening
  | ok parsed => exact add_le_length hopening (hbody parsed.1 parsed.2 rfl)

end Reading.Fits

/-- Where an item begins. -/
def Item.offset : Item → Nat
  | .ok l => l.start
  | .error (_, offset) => offset

@[simp] theorem Item.offset_ok (l : Lexeme) : Item.offset (.ok l) = l.start := rfl

@[simp] theorem Item.offset_error (f : LexFault) (n : Nat) : Item.offset (.error (f, n)) = n := rfl

theorem offset_itemAt (before : List Char) (start : Nat) (c : Char) (cs : List Char) :
    Item.offset (itemAt before start c cs) = start := by
  unfold itemAt
  split <;> rfl

/-- The items take a text apart that begins at `start`: each takes a part of it that is not empty,
and a lexeme holds its part. -/
inductive Advances : Nat → List Char → List Item → Prop where
  | nil {start : Nat} : Advances start [] []
  | cons {start : Nat} {part rest : List Char} {item : Item} {items : List Item} : part ≠ [] →
    Item.offset item = start → (∀ l, item = .ok l → l.text = part) →
    Advances (start + Text.byteSize part) rest items →
    Advances start (part ++ rest) (item :: items)

namespace Advances

variable {start : Nat} {items : List Item}

/-- There are no more items than characters. -/
theorem length_le (h : Advances start cs items) : items.length ≤ cs.length := by
  induction h with
  | nil => exact Nat.le_refl _
  | cons hne _ _ _ ih =>
    have hpos := List.length_pos_iff.mpr hne
    rw [List.length_cons, List.length_append]
    omega

/-- The items begin inside the text. -/
theorem offset_mem (h : Advances start cs items) :
    ∀ item ∈ items, start ≤ item.offset ∧ item.offset < start + Text.byteSize cs := by
  induction h with
  | nil => simp
  | @cons start part rest item items hne hoffset _ _ ih =>
    have hpos := Nat.pos_of_ne_zero fun hzero => hne (byteSize_eq_zero_iff.mp hzero)
    rw [byteSize_append]
    rintro item' (_ | ⟨_, hitem⟩)
    · omega
    · have hmem := ih item' hitem
      omega

/-- Each item begins behind where the items before it begin, and behind their ends. -/
theorem pairwise (h : Advances start cs items) : items.Pairwise fun item later =>
    item.offset < later.offset ∧ ∀ l, item = .ok l → l.range.stop ≤ later.offset := by
  induction h with
  | nil => exact .nil
  | @cons start part rest item items hne hoffset hholds hrest ih =>
    have hpos := Nat.pos_of_ne_zero fun hzero => hne (byteSize_eq_zero_iff.mp hzero)
    refine .cons (fun later hlater => ?_) ih
    obtain ⟨hge, -⟩ := hrest.offset_mem later hlater
    refine ⟨by omega, ?_⟩
    rintro l rfl
    rw [Item.offset_ok] at hoffset
    rw [range, hholds l rfl, hoffset]
    exact hge

/-- A lexeme is what stands in the text at its offset. -/
theorem exists_around (h : Advances start cs items) {l : Lexeme} (hl : .ok l ∈ items) :
    l.text ≠ [] ∧ ∃ before behind, cs = before ++ l.text ++ behind ∧
      l.start = start + Text.byteSize before := by
  induction h with
  | nil => cases hl
  | @cons start part rest item items hne hoffset hholds _ ih =>
    rcases List.mem_cons.mp hl with rfl | hl
    · rw [hholds l rfl]
      exact ⟨hne, [], rest, rfl, hoffset⟩
    · obtain ⟨hfull, before, behind, rfl, hstart⟩ := ih hl
      refine ⟨hfull, part ++ before, behind, by simp, ?_⟩
      rw [hstart, byteSize_append, Nat.add_assoc]

end Advances

/-- The first item of what is left begins where that begins. -/
theorem offset_head?_itemsFrom (before : List Char) (start : Nat) (cs : List Char) :
    (itemsFrom before start [] cs).head?.map Item.offset = cs.head?.map fun _ => start := by
  cases cs with
  | nil =>
    rw [itemsFrom]
    rfl
  | cons c cs =>
    rw [itemsFrom_cons, List.head?_cons, List.head?_cons, Option.map_some, Option.map_some,
      offset_itemAt]

/-- **Where reading goes on**: behind what the recogniser of a place has taken there the next item
begins, or nothing is left of the text. -/
theorem Reaches.exists_next {text pre : List Char} {c : Char} (h : Reaches text pre (c :: cs)) :
    ∃ done later, items text =
        done ++ itemAt (seenBehind text pre) (Text.byteSize pre) c cs :: later ∧
      later.head?.map Item.offset = (cs.drop (scan (seenBehind text pre) c cs).more).head?.map
        fun _ => Text.byteSize (pre ++ c :: cs.take (scan (seenBehind text pre) c cs).more) := by
  obtain ⟨done, hitems⟩ := h.items_eq
  rw [itemsFrom_cons, ← byteSize_append] at hitems
  exact ⟨done, _, hitems, offset_head?_itemsFrom ..⟩

end Lexeme
end Packrat
