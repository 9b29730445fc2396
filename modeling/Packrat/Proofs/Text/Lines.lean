/-
# Two ways to count lines

A piece of text is cut into lines on its own (`Text.lines`), and a whole text has an index of its
lines.  Both break at the same places (`Text.breaks`): a piece has one line more than it has breaks,
unless it ends with a return (`Text.length_lines`), and what stands on one of its lines has as many
breaks before it as there are lines before that one (`Text.any_lines_iff`).

Breaks of a text are those of its parts wherever no line break is cut in two, and then an offset is
on the line behind the breaks before it (`LineIndex.lineOf_append`).  So the lines of a piece are
those of the text, counted from the line where the piece begins (`Text.lineOf_inside`).
-/

import Packrat.Proofs.Text.LineIndex
import Packrat.Text.Lines

namespace Packrat
namespace Text

variable {cs : List Char} {c : Char} {p : Char → Bool} {n : Nat}

/-- Number of line breaks of a text. -/
def breaks (cs : List Char) : Nat := (LineIndex.startsFrom 0 cs).length

/-- Where a text begins makes no difference to its breaks. -/
theorem length_startsFrom (cs : List Char) : ∀ offset,
    (LineIndex.startsFrom offset cs).length = breaks cs := by
  suffices h : ∀ offset offset', (LineIndex.startsFrom offset cs).length =
      (LineIndex.startsFrom offset' cs).length from fun offset => h offset 0
  induction cs with
  | nil => exact fun _ _ => rfl
  | cons c cs ih =>
    intro offset offset'
    rw [LineIndex.startsFrom, LineIndex.startsFrom]
    split
    · rw [List.length_cons, List.length_cons, ih]
    · exact ih ..

@[simp] theorem breaks_nil : breaks [] = 0 := rfl

theorem breaks_cons (c : Char) (cs : List Char) : breaks (c :: cs) =
    breaks cs + if c = '\n' ∨ c = '\r' ∧ cs.head? ≠ some '\n' then 1 else 0 := by
  rw [breaks, LineIndex.startsFrom]
  split
  · rw [List.length_cons, length_startsFrom]
  · rw [length_startsFrom, Nat.add_zero]

/-- A return and a line feed are one break. -/
@[simp] theorem breaks_return_feed (cs : List Char) :
    breaks ('\r' :: '\n' :: cs) = breaks cs + 1 := by
  simp [breaks_cons]

/-- A character breaks no line. -/
def KeepsLine (c : Char) : Prop := c ≠ '\n' ∧ c ≠ '\r'

instance (c : Char) : Decidable (KeepsLine c) := inferInstanceAs (Decidable (c ≠ '\n' ∧ c ≠ '\r'))

theorem keepsLine_of_all (h : cs.all (fun c => decide (KeepsLine c)) = true) :
    ∀ c ∈ cs, KeepsLine c := fun c hc => of_decide_eq_true (List.all_eq_true.mp h c hc)

theorem breaks_cons_of_keepsLine (h : KeepsLine c) (cs : List Char) :
    breaks (c :: cs) = breaks cs := by
  simp [breaks_cons, h.1, h.2]

/-- The breaks of a text are those of its two parts. -/
theorem breaks_append {before after : List Char} (h : ¬ SplitsBreak before after) :
    breaks (before ++ after) = breaks before + breaks after := by
  rw [breaks, LineIndex.startsFrom_append h, List.length_append, length_startsFrom,
    length_startsFrom]

theorem breaks_append_of_keepsLine {before : List Char} (h : ∀ c ∈ before, KeepsLine c)
    (after : List Char) : breaks (before ++ after) = breaks after := by
  induction before with
  | nil => rfl
  | cons c cs ih =>
    obtain ⟨hc, hcs⟩ := List.forall_mem_cons.mp h
    rw [List.cons_append, breaks_cons_of_keepsLine hc, ih hcs]

/-- What does not begin inside a line break has no beginning that does. -/
theorem SplitsBreak.of_prefix {before after longer : List Char} (h : SplitsBreak before after)
    (hbegins : after <+: longer) : SplitsBreak before longer := by
  obtain ⟨rest, rfl⟩ := hbegins
  refine ⟨h.1, ?_⟩
  rw [List.head?_append, h.2, Option.some_or]

/-! ## Lines of a piece -/

theorem length_consFirst (c : Char) {ls : List (List Char)} (h : ls ≠ []) :
    (consFirst c ls).length = ls.length := by
  cases ls with
  | nil => exact absurd rfl h
  | cons l ls => rfl

/-- There is always a line. -/
theorem lines_ne_nil (cs : List Char) : lines cs ≠ [] := by
  fun_cases lines cs with
  | case5 c cs _ _ => cases lines cs <;> simp [consFirst]
  | _ => simp

/-- **A piece has one line more than breaks**, unless it ends with a return. -/
theorem length_lines (h : cs.getLast? ≠ some '\r') : (lines cs).length = breaks cs + 1 := by
  have htail : ∀ {c cs}, (c :: cs : List Char).getLast? ≠ some '\r' → cs.getLast? ≠ some '\r' := by
    intro c cs h hlast
    rw [List.getLast?_cons, hlast] at h
    exact h rfl
  fun_induction lines cs with
  | case1 => rfl
  | case2 cs ih =>
    rw [List.length_cons, ih (htail (htail h)), breaks_return_feed]
  | case3 => exact absurd rfl h
  | case4 c cs hfeed hreturn hbreak ih =>
    have hone : c = '\n' ∨ c = '\r' ∧ cs.head? ≠ some '\n' := by
      refine hbreak.imp_right fun hc => ⟨hc, fun hhead => ?_⟩
      obtain ⟨rest, hrest⟩ := List.head?_eq_some_iff.mp hhead
      exact hfeed rest hc hrest
    rw [List.length_cons, ih (htail h), breaks_cons, if_pos hone]
  | case5 c cs _ _ hplain ih =>
    rw [not_or] at hplain
    rw [length_consFirst c (lines_ne_nil cs), ih (htail h), breaks_cons_of_keepsLine hplain]

/-- What stands in two lists one after the other stands in one of them. -/
theorem eq_append_cons_of_append {α : Type} {xs ys before after : List α} {x : α}
    (h : xs ++ ys = before ++ x :: after) :
    (∃ rest, xs = before ++ x :: rest ∧ after = rest ++ ys) ∨
      ∃ init, before = xs ++ init ∧ ys = init ++ x :: after := by
  rcases List.append_eq_append_iff.mp h with ⟨init, hbefore, hys⟩ | ⟨rest, hxs, hrest⟩
  · exact .inr ⟨init, hbefore, hys⟩
  · cases rest with
    | nil => exact .inr ⟨[], by simpa using hxs.symm, by simpa using hrest.symm⟩
    | cons y rest =>
      obtain ⟨rfl, rfl⟩ := List.cons_eq_cons.mp hrest
      exact .inl ⟨rest, hxs, rfl⟩

/-- A character that passes a test stands behind `n` breaks. -/
def HasOnLine (p : Char → Bool) (n : Nat) (cs : List Char) : Prop :=
  ∃ init c rest, cs = init ++ c :: rest ∧ p c = true ∧ breaks init = n

/-- A part in front that does not pass the test only shifts the lines, by as many breaks as it
adds. -/
theorem hasOnLine_append {pre : List Char} {k : Nat} (hpre : ∀ c ∈ pre, p c = false)
    (hbreaks : ∀ init rest, cs = init ++ rest → breaks (pre ++ init) = k + breaks init) :
    HasOnLine p n (pre ++ cs) ↔ ∃ m, n = k + m ∧ HasOnLine p m cs := by
  constructor
  · rintro ⟨init, c, rest, heq, hc, rfl⟩
    rcases eq_append_cons_of_append heq with ⟨others, rfl, -⟩ | ⟨more, rfl, hmore⟩
    · have hnot := hpre c (by simp)
      rw [hc] at hnot
      cases hnot
    · exact ⟨breaks more, hbreaks more _ hmore, more, c, rest, hmore, hc, rfl⟩
  · rintro ⟨k, rfl, init, c, rest, rfl, hc, rfl⟩
    exact ⟨pre ++ init, c, rest, (List.append_assoc ..).symm, hc, hbreaks init _ rfl⟩

/-- Characters in front that break no line and do not pass the test make no difference. -/
theorem hasOnLine_append_left {before : List Char}
    (h : ∀ c ∈ before, KeepsLine c ∧ p c = false) : HasOnLine p n (before ++ cs) ↔
      HasOnLine p n cs := by
  have hshift := hasOnLine_append (p := p) (n := n) (k := 0) (fun c hc => (h c hc).2)
    fun init rest (_ : cs = init ++ rest) => by
      rw [breaks_append_of_keepsLine fun c hc => (h c hc).1, Nat.zero_add]
  simpa using hshift

/-- Characters behind that do not pass the test make no difference. -/
theorem hasOnLine_append_right {after : List Char} (h : ∀ c ∈ after, p c = false) :
    HasOnLine p n (cs ++ after) ↔ HasOnLine p n cs := by
  constructor
  · rintro ⟨init, c, rest, heq, hc, rfl⟩
    rcases eq_append_cons_of_append heq with ⟨others, hothers, -⟩ | ⟨more, -, rfl⟩
    · exact ⟨init, c, others, hothers, hc, rfl⟩
    · have hnot := h c (by simp)
      rw [hc] at hnot
      cases hnot
  · rintro ⟨init, c, rest, rfl, hc, rfl⟩
    exact ⟨init, c, rest ++ after, by simp, hc, rfl⟩

theorem not_hasOnLine_nil : ¬ HasOnLine p n [] := by
  rintro ⟨init, c, rest, heq, -⟩
  simp at heq

/-- The first line of some lines has one character more. -/
theorem any_consFirst_iff (c : Char) {ls : List (List Char)} (h : ls ≠ []) :
    (∃ l, (consFirst c ls)[n]? = some l ∧ l.any p = true) ↔
      (n = 0 ∧ p c = true) ∨ ∃ l, ls[n]? = some l ∧ l.any p = true := by
  cases ls with
  | nil => exact absurd rfl h
  | cons l ls =>
    cases n with
    | zero => simp [consFirst]
    | succ n => simp [consFirst]

/-- The first line of a text begins with its first character, if that breaks no line. -/
theorem hasOnLine_cons (hc : KeepsLine c) :
    HasOnLine p n (c :: cs) ↔ (n = 0 ∧ p c = true) ∨ HasOnLine p n cs := by
  constructor
  · rintro ⟨init, d, rest, heq, hd, rfl⟩
    cases init with
    | nil =>
      obtain ⟨rfl, -⟩ := List.cons_eq_cons.mp heq
      exact .inl ⟨rfl, hd⟩
    | cons c' init =>
      obtain ⟨rfl, rfl⟩ := List.cons_eq_cons.mp heq
      exact .inr ⟨init, d, rest, rfl, hd, (breaks_cons_of_keepsLine hc init).symm⟩
  · rintro (⟨rfl, hp⟩ | ⟨init, d, rest, rfl, hd, rfl⟩)
    · exact ⟨[], c, cs, rfl, hp, rfl⟩
    · exact ⟨c :: init, d, rest, rfl, hd, breaks_cons_of_keepsLine hc init⟩

/-- **What stands on a line of a piece** has as many breaks before it as there are lines before that
one. -/
theorem any_lines_iff (hfeed : p '\n' = false) (hreturn : p '\r' = false) :
    (∃ l, (lines cs)[n]? = some l ∧ l.any p = true) ↔ HasOnLine p n cs := by
  -- a line that is empty, and the others
  have hskip : ∀ {ls : List (List Char)} {n}, (∃ l, ([] :: ls)[n]? = some l ∧ l.any p = true) ↔
      ∃ m, n = 1 + m ∧ ∃ l, ls[m]? = some l ∧ l.any p = true := by
    intro ls n
    cases n <;> simp [Nat.add_comm 1]
  fun_induction lines cs generalizing n with
  | case1 =>
    rw [hskip]
    exact iff_of_false (by simp) not_hasOnLine_nil
  | case2 cs ih =>
    have hshift : HasOnLine p n (['\r', '\n'] ++ cs) ↔ ∃ m, n = 1 + m ∧ HasOnLine p m cs :=
      hasOnLine_append (by simp [hfeed, hreturn]) fun init _ _ =>
        (breaks_return_feed init).trans (Nat.add_comm ..)
    rw [hskip]
    exact (exists_congr fun m => and_congr_right fun _ => ih).trans hshift.symm
  | case3 =>
    rw [hskip]
    refine iff_of_false (by simp) ?_
    rintro ⟨init, c, rest, heq, hc, -⟩
    have hmem : c ∈ ['\r'] := by rw [heq]; simp
    rw [List.mem_singleton.mp hmem, hreturn] at hc
    cases hc
  | case4 c cs hnext hmore hbreak ih =>
    have hc : p c = false := by rcases hbreak with rfl | rfl <;> assumption
    have hone : ∀ init rest, cs = init ++ rest → breaks ([c] ++ init) = 1 + breaks init := by
      rintro init rest rfl
      rw [List.singleton_append, breaks_cons, if_pos, Nat.add_comm]
      refine hbreak.imp_right fun hr => ⟨hr, fun hhead => ?_⟩
      obtain ⟨tail, rfl⟩ := List.head?_eq_some_iff.mp hhead
      exact hnext (tail ++ rest) hr rfl
    have hshift : HasOnLine p n ([c] ++ cs) ↔ ∃ m, n = 1 + m ∧ HasOnLine p m cs :=
      hasOnLine_append (by simp [hc]) hone
    rw [hskip]
    exact (exists_congr fun m => and_congr_right fun _ => ih).trans hshift.symm
  | case5 c cs _ _ hplain ih =>
    rw [not_or] at hplain
    exact ((any_consFirst_iff c (lines_ne_nil cs)).trans (or_congr_right ih)).trans
      (hasOnLine_cons hplain).symm

end Text

/-! ## Lines of the text -/

/-- A cursor is on the line behind the breaks that it has passed. -/
theorem Cursor.line_advance (passed : List Char) :
    (Cursor.advance {} passed).position.line = Text.breaks passed + 1 := by
  obtain ⟨head, tail, hdivides⟩ := exists_divides passed
  rw [hdivides.position]
  rfl

/-- The line of an offset, as the index of the text has it. -/
def LineIndex.lineOf (text : List Char) (offset : Nat) : Nat := ((ofText text).position offset).line

/-- **An offset is on the line behind the breaks before it**, unless it is inside a line break. -/
theorem LineIndex.lineOf_append {before after : List Char} (h : ¬ Text.SplitsBreak before after) :
    lineOf (before ++ after) (Text.byteSize before) = Text.breaks before + 1 := by
  rw [lineOf, position_ofText h, Cursor.line_advance]

namespace Text

/-- A character stands in a text at an offset. -/
def HoldsAt (text : List Char) (offset : Nat) (c : Char) : Prop :=
  ∃ before after, text = before ++ c :: after ∧ byteSize before = offset

variable {pre mid post init rest : List Char} {c : Char} {offset : Nat}

theorem holdsAt_append (pre init rest post : List Char) (c : Char) :
    HoldsAt (pre ++ (init ++ c :: rest) ++ post) (byteSize (pre ++ init)) c :=
  ⟨pre ++ init, rest ++ post, by simp, rfl⟩

/-- What stands in the text inside a part of it stands in the part. -/
theorem HoldsAt.exists_inside (h : HoldsAt (pre ++ mid ++ post) offset c)
    (hstart : byteSize pre ≤ offset) (hstop : offset + c.utf8Size ≤ byteSize pre + byteSize mid) :
    ∃ init rest, mid = init ++ c :: rest ∧ offset = byteSize (pre ++ init) := by
  obtain ⟨before, after, heq, rfl⟩ := h
  have hpos := c.utf8Size_pos
  rw [List.append_assoc] at heq
  rcases eq_append_cons_of_append heq with ⟨others, rfl, -⟩ | ⟨init, rfl, hmid⟩
  · rw [byteSize_append, byteSize] at hstart
    omega
  · rcases eq_append_cons_of_append hmid with ⟨rest, rfl, -⟩ | ⟨more, rfl, -⟩
    · exact ⟨init, rest, rfl, rfl⟩
    · rw [byteSize_append, byteSize_append] at hstop
      omega

/-- Characters that stop at one place start at one place. -/
theorem HoldsAt.eq_of_stop {offset' : Nat} {c' : Char} {text : List Char}
    (h : HoldsAt text offset c) (h' : HoldsAt text offset' c')
    (hstop : offset + c.utf8Size = offset' + c'.utf8Size) : offset = offset' := by
  obtain ⟨before, after, rfl, rfl⟩ := h
  obtain ⟨before', after', heq, rfl⟩ := h'
  have hparts : (before ++ [c]) ++ after = (before' ++ [c']) ++ after' := by simpa using heq
  have hsize : byteSize (before ++ [c]) = byteSize (before' ++ [c']) := by
    simp only [byteSize_append, byteSize]
    omega
  rw [(List.append_inj' (append_inj_of_byteSize hparts hsize).1 rfl).1]

/-- **The lines of a part count from the line where it begins.** -/
theorem lineOf_inside (hcut : ¬ SplitsBreak pre (init ++ c :: rest)) (hc : c ≠ '\n') :
    LineIndex.lineOf (pre ++ (init ++ c :: rest) ++ post) (byteSize (pre ++ init)) =
      breaks pre + 1 + breaks init := by
  have hinit : ¬ SplitsBreak pre init := fun h => hcut (h.of_prefix (List.prefix_append ..))
  have hplace : ¬ SplitsBreak (pre ++ init) (c :: rest ++ post) :=
    fun h => hc (Option.some.inj h.2)
  have htext : pre ++ (init ++ c :: rest) ++ post = (pre ++ init) ++ (c :: rest ++ post) := by
    simp
  rw [htext, LineIndex.lineOf_append hplace, breaks_append hinit]
  omega

end Text

/-- A return that no line feed follows, one that a line feed follows, and one at the end. -/
example : Text.lines "a\r\r\nb\r".toList = ["a".toList, [], "b".toList] ∧
    Text.breaks "a\r\r\nb\r".toList = 3 := by decide

end Packrat
