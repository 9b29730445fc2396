/-
# Two ways to a position

A cursor that has walked over the beginning of a text knows its position without a look at what
follows; a line index is told an offset of the whole text and counts the lines that start up to
there.  Both give the same position, except between the two characters of a line break `\r\n`
(`LineIndex.position_ofText_iff`): there the cursor is on the next line already, where the index is
one byte later (`LineIndex.position_of_splitsBreak`).

The proof follows the cursor.  What it has passed is cut in two where its line starts
(`Cursor.Divides`): the index knows this start, and the characters behind it are the column.
-/

import Mathlib.Data.List.Induction
import Packrat.Proofs.Text.Measure
import Packrat.Text.Cursor
import Packrat.Text.LineIndex

namespace Packrat

/-- The two parts of a text are the two characters of a line break, at least where they meet. -/
def Text.SplitsBreak (before after : List Char) : Prop :=
  before.getLast? = some '\r' ∧ after.head? = some '\n'

instance (before after : List Char) : Decidable (Text.SplitsBreak before after) :=
  inferInstanceAs (Decidable (before.getLast? = some '\r' ∧ after.head? = some '\n'))

/-- A text in front makes no difference. -/
theorem Text.splitsBreak_append {before mid after : List Char} (hne : mid ≠ []) :
    SplitsBreak (before ++ mid) after ↔ SplitsBreak mid after := by
  rw [SplitsBreak, SplitsBreak, List.getLast?_append, List.getLast?_eq_some_getLast hne,
    Option.some_or]

namespace LineIndex

/-- Lines start behind the place where a text begins, and not behind its end. -/
theorem mem_startsFrom {cs : List Char} : ∀ {offset start : Nat}, start ∈ startsFrom offset cs →
    offset < start ∧ start ≤ offset + Text.byteSize cs := by
  induction cs with
  | nil => rintro _ _ ⟨⟩
  | cons c cs ih =>
    intro offset start h
    have hpos := c.utf8Size_pos
    have hrest : ∀ {start}, start ∈ startsFrom (offset + c.utf8Size) cs →
        offset < start ∧ start ≤ offset + Text.byteSize (c :: cs) := by
      intro start h
      obtain ⟨hlt, hle⟩ := ih h
      rw [Text.byteSize]
      omega
    rw [startsFrom] at h
    split at h
    · rcases List.mem_cons.mp h with rfl | h
      · rw [Text.byteSize]
        omega
      · exact hrest h
    · exact hrest h

/-- The lines of a text are those of its two parts. -/
theorem startsFrom_append {before after : List Char} : ∀ {offset : Nat},
    ¬ Text.SplitsBreak before after → startsFrom offset (before ++ after) =
      startsFrom offset before ++ startsFrom (offset + Text.byteSize before) after := by
  induction before with
  | nil => exact fun _ => rfl
  | cons c cs ih =>
    intro offset h
    have hbreak : (c = '\n' ∨ c = '\r' ∧ (cs ++ after).head? ≠ some '\n') ↔
        (c = '\n' ∨ c = '\r' ∧ cs.head? ≠ some '\n') := by
      cases cs with
      | nil =>
        have hnot : c = '\r' → after.head? ≠ some '\n' := by
          rintro rfl hafter
          exact h ⟨rfl, hafter⟩
        constructor
        · exact Or.imp_right fun hr => ⟨hr.1, by simp⟩
        · exact Or.imp_right fun hr => ⟨hr.1, hnot hr.1⟩
      | cons d cs => rfl
    have hrest : ¬ Text.SplitsBreak cs after := by
      rintro ⟨hlast, hhead⟩
      cases cs with
      | nil => cases hlast
      | cons d cs => exact h ⟨by rwa [List.getLast?_cons_cons], hhead⟩
    rw [List.cons_append, startsFrom, startsFrom, Text.byteSize, ← Nat.add_assoc, ih hrest]
    simp only [hbreak]
    split <;> rfl

/-- A return is the second part of no line break. -/
theorem startsFrom_append_return (before rest : List Char) : startsFrom 0 (before ++ '\r' :: rest) =
    startsFrom 0 before ++ startsFrom (Text.byteSize before) ('\r' :: rest) := by
  have hnot : ¬ Text.SplitsBreak before ('\r' :: rest) := by simp [Text.SplitsBreak]
  rw [startsFrom_append hnot, Nat.zero_add]

/-- The lines that start up to an offset come first. -/
theorem filter_starts {starts others : List Nat} {offset : Nat}
    (hstarts : ∀ start ∈ starts, start ≤ offset) (hothers : ∀ start ∈ others, offset < start) :
    (0 :: (starts ++ others)).filter (· ≤ offset) = 0 :: starts := by
  rw [List.filter_cons_of_pos (by simp), List.filter_append, List.filter_eq_self.mpr,
    List.filter_eq_nil_iff.mpr, List.append_nil]
  · intro start hstart
    have hlt := hothers start hstart
    simp only [decide_eq_true_eq]
    omega
  · intro start hstart
    exact decide_eq_true (hstarts start hstart)

end LineIndex

namespace Cursor

/-- What a cursor has passed: the text up to the start of its line, and the rest of the line. -/
structure Divides (passed head tail : List Char) : Prop where
  text : passed = head ++ tail
  start : (LineIndex.startsFrom 0 passed).getLastD 0 = Text.byteSize head
  position : (Cursor.advance {} passed).position =
    ⟨(LineIndex.startsFrom 0 passed).length + 1, tail.length⟩
  afterReturn : (Cursor.advance {} passed).afterReturn = decide (passed.getLast? = some '\r')

theorem advance_append (k : Cursor) (cs ds : List Char) :
    k.advance (cs ++ ds) = (k.advance cs).advance ds := List.foldl_append

theorem advance_singleton (k : Cursor) (c : Char) : k.advance [c] = k.step c := rfl

variable {passed head tail : List Char} {c : Char}

/-- A character that breaks no line is one column more. -/
theorem Divides.snoc_plain (h : Divides passed head tail) (hn : c ≠ '\n') (hr : c ≠ '\r') :
    Divides (passed ++ [c]) head (tail ++ [c]) := by
  have hstarts : LineIndex.startsFrom 0 (passed ++ [c]) = LineIndex.startsFrom 0 passed := by
    have hnot : ¬ Text.SplitsBreak passed [c] := fun hbreak => hn (Option.some.inj hbreak.2)
    rw [LineIndex.startsFrom_append hnot]
    simp [LineIndex.startsFrom, hn, hr]
  refine ⟨by rw [h.text, List.append_assoc], by rw [hstarts, h.start], ?_, ?_⟩
  · rw [advance_append, advance_singleton, step, h.position, hstarts]
    simp [hn, hr]
  · rw [advance_append, advance_singleton, step]
    simp

/-- A line break, if no part of it has been passed before, starts a line. -/
theorem Divides.snoc_break (h : Divides passed head tail) (hc : c = '\n' ∨ c = '\r')
    (hnot : ¬ Text.SplitsBreak passed [c]) : Divides (passed ++ [c]) (passed ++ [c]) [] := by
  have hstarts : LineIndex.startsFrom 0 (passed ++ [c]) =
      LineIndex.startsFrom 0 passed ++ [Text.byteSize (passed ++ [c])] := by
    rw [LineIndex.startsFrom_append hnot, Text.byteSize_append]
    simp [LineIndex.startsFrom, hc, Text.byteSize]
  refine ⟨by rw [List.append_nil], by rw [hstarts]; simp, ?_, ?_⟩
  · have hfresh : ¬ (c = '\n' ∧ (Cursor.advance {} passed).afterReturn = true) := by
      rintro ⟨rfl, hafter⟩
      rw [h.afterReturn] at hafter
      exact hnot ⟨of_decide_eq_true hafter, rfl⟩
    rw [advance_append, advance_singleton, step, h.position, hstarts, if_neg hfresh, if_pos hc]
    simp
  · rw [advance_append, advance_singleton, step]
    simp

/-- The second character of a line break moves the start of the line. -/
theorem Divides.snoc_feed (h : Divides (passed ++ ['\r']) head tail) :
    Divides (passed ++ ['\r'] ++ ['\n']) (passed ++ ['\r'] ++ ['\n']) [] := by
  have hbefore := LineIndex.startsFrom_append_return passed []
  have hafter := LineIndex.startsFrom_append_return passed ['\n']
  simp only [LineIndex.startsFrom, List.head?_nil, List.head?_cons, reduceCtorEq, ne_eq,
    not_false_eq_true, and_self, or_true, if_true, not_true_eq_false, and_false, or_false,
    if_false, Char.reduceEq] at hbefore hafter
  -- the line starts behind both characters, and has started behind the first before
  have htail : tail = [] := by
    have hstart := h.start
    rw [hbefore] at hstart
    have hsize := congrArg Text.byteSize h.text
    rw [Text.byteSize_append, Text.byteSize_append, ← hstart] at hsize
    simp [Text.byteSize] at hsize
    exact Text.byteSize_eq_zero_iff.mp hsize
  have hposition := h.position
  rw [hbefore, htail] at hposition
  have hreturn : (Cursor.advance {} (passed ++ ['\r'])).afterReturn = true := by
    rw [h.afterReturn]
    simp
  refine ⟨by rw [List.append_nil], ?_, ?_, ?_⟩
  · rw [List.append_assoc, List.singleton_append, hafter]
    simp [Text.byteSize, Nat.add_assoc]
  · rw [advance_append, advance_singleton, step, hreturn, hposition, List.append_assoc,
      List.singleton_append, hafter]
    simp
  · rw [advance_append, advance_singleton, step]
    simp

/-- **A cursor knows the line and the column.** -/
theorem exists_divides (passed : List Char) : ∃ head tail, Divides passed head tail := by
  induction passed using List.reverseRecOn with
  | nil => exact ⟨[], [], rfl, rfl, rfl, rfl⟩
  | append_singleton passed c ih =>
    obtain ⟨head, tail, h⟩ := ih
    by_cases hc : c = '\n' ∨ c = '\r'
    · by_cases hbreak : Text.SplitsBreak passed [c]
      · obtain ⟨hlast, hfeed⟩ := hbreak
        obtain rfl : c = '\n' := Option.some.inj hfeed
        obtain ⟨init, rfl⟩ := List.getLast?_eq_some_iff.mp hlast
        exact ⟨_, _, h.snoc_feed⟩
      · exact ⟨_, _, h.snoc_break hc hbreak⟩
    · exact ⟨_, _, h.snoc_plain (fun hn => hc (.inl hn)) fun hr => hc (.inr hr)⟩

/-- A cursor goes on by one column for each character that breaks no line. -/
theorem position_advance {k : Cursor} {cs : List Char} (h : ∀ c ∈ cs, c ≠ '\n' ∧ c ≠ '\r') :
    (k.advance cs).position = ⟨k.position.line, k.position.column + cs.length⟩ := by
  induction cs generalizing k with
  | nil => rfl
  | cons c cs ih =>
    obtain ⟨hn, hr⟩ := h c (by simp)
    have hstep : (k.step c).position = ⟨k.position.line, k.position.column + 1⟩ := by
      simp [step, hn, hr]
    change ((k.step c).advance cs).position = _
    rw [ih fun d hd => h d (by simp [hd]), hstep, List.length_cons]
    simp only [Position.mk.injEq, true_and]
    omega

end Cursor

namespace LineIndex

/-- **An index and a cursor agree**, unless the place is inside a line break. -/
theorem position_ofText {before after : List Char} (h : ¬ Text.SplitsBreak before after) :
    (ofText (before ++ after)).position (Text.byteSize before) =
      (Cursor.advance {} before).position := by
  obtain ⟨head, tail, hdivides⟩ := Cursor.exists_divides before
  -- the lines that start up to the place are those of the text before it
  have hfilter : (ofText (before ++ after)).starts.filter (· ≤ Text.byteSize before) =
      0 :: startsFrom 0 before := by
    rw [ofText, startsFrom_append h]
    refine filter_starts (fun start hstart => ?_) fun start hstart => ?_
    · have hle := (mem_startsFrom hstart).2
      omega
    · have hlt := (mem_startsFrom hstart).1
      omega
  have hstart : (ofText (before ++ after)).starts.getD (startsFrom 0 before).length 0 =
      Text.byteSize head := by
    rw [ofText, startsFrom_append h, ← hdivides.start]
    cases hlast : startsFrom 0 before using List.reverseRecOn with
    | nil => rfl
    | append_singleton init last => simp
  have hhead : Text.charsBefore? (Text.byteSize head) (before ++ after) = some head.length := by
    rw [Text.charsBefore?, Text.dropBytes?_eq_some_iff.mpr
      ⟨head, by rw [hdivides.text, List.append_assoc], rfl⟩, hdivides.text]
    simp
  have hbefore : Text.charsBefore? (Text.byteSize before) (before ++ after) =
      some before.length := by
    rw [Text.charsBefore?, Text.dropBytes?_eq_some_iff.mpr ⟨before, rfl, rfl⟩]
    simp
  have hmin : min (Text.byteSize before) (Text.byteSize (before ++ after)) =
      Text.byteSize before := by
    rw [Text.byteSize_append]
    omega
  have htext : (ofText (before ++ after)).text = before ++ after := rfl
  rw [position, hfilter, htext]
  simp only [List.length_cons, Nat.add_sub_cancel, hstart, hmin, hhead, hbefore]
  rw [hdivides.position, hdivides.text, List.length_append, Nat.add_sub_cancel_left]

/-- The line of an offset is told by the lines that start up to there. -/
theorem line_position (ix : LineIndex) (offset : Nat) :
    (ix.position offset).line = (ix.starts.filter (· ≤ offset)).length := rfl

/-- Inside a line break the cursor is ahead: it is where the index is behind the break, one line
further than the index is there. -/
theorem position_of_splitsBreak {before after : List Char} (h : Text.SplitsBreak before after) :
    (ofText (before ++ after)).position (Text.byteSize before + 1) =
        (Cursor.advance {} before).position ∧
      ((ofText (before ++ after)).position (Text.byteSize before)).line + 1 =
        (Cursor.advance {} before).position.line := by
  obtain ⟨hlast, hhead⟩ := h
  obtain ⟨init, rfl⟩ := List.getLast?_eq_some_iff.mp hlast
  obtain ⟨rest, rfl⟩ : ∃ rest, after = '\n' :: rest := by
    cases after with
    | nil => cases hhead
    | cons c rest => exact ⟨rest, by rw [Option.some.inj hhead]⟩
  -- the cursor has started a line at the return and does not at the line feed
  have hcursor : (Cursor.advance {} (init ++ ['\r'] ++ ['\n'])).position =
      (Cursor.advance {} (init ++ ['\r'])).position := by
    simp [Cursor.advance, Cursor.step]
  constructor
  · have hbehind : ¬ Text.SplitsBreak (init ++ ['\r'] ++ ['\n']) rest := by
      simp [Text.SplitsBreak]
    have hposition := position_ofText hbehind
    rw [Text.byteSize_append _ ['\n'], hcursor] at hposition
    rw [← hposition, List.append_assoc _ ['\n'], List.singleton_append]
    rfl
  · obtain ⟨head, tail, hdivides⟩ := Cursor.exists_divides (init ++ ['\r'])
    -- the lines that start up to the place are those that start before the return
    have hfilter : (ofText (init ++ ['\r'] ++ '\n' :: rest)).starts.filter
        (· ≤ Text.byteSize (init ++ ['\r'])) = 0 :: startsFrom 0 init := by
      have hreturn : startsFrom (Text.byteSize init) ('\r' :: '\n' :: rest) =
          startsFrom (Text.byteSize (init ++ ['\r'])) ('\n' :: rest) := by
        rw [Text.byteSize_append]
        simp [startsFrom, Text.byteSize]
      rw [ofText, List.append_assoc, List.singleton_append, startsFrom_append_return, hreturn]
      refine filter_starts (fun start hstart => ?_) fun start hstart => (mem_startsFrom hstart).1
      have hle := (mem_startsFrom hstart).2
      rw [Text.byteSize_append]
      omega
    rw [line_position, hfilter, hdivides.position, startsFrom_append_return]
    simp [startsFrom]

/-- **An index and a cursor agree just where no line break is cut in two.** -/
theorem position_ofText_iff {before after : List Char} :
    (Cursor.advance {} before).position =
        (ofText (before ++ after)).position (Text.byteSize before) ↔
      ¬ Text.SplitsBreak before after := by
  refine ⟨fun heq hbreak => ?_, fun h => (position_ofText h).symm⟩
  have hline := (position_of_splitsBreak hbreak).2
  rw [heq] at hline
  omega

example : (ofText "a\r\nb".toList).position 2 = ⟨1, 2⟩ ∧
    (Cursor.advance {} "a\r".toList).position = ⟨2, 0⟩ := by decide

end LineIndex
end Packrat
