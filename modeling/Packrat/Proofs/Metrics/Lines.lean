/-
# Counted lines are lines of the index

The lines that tokens and comments take are counted from the pieces of the stream: a piece is cut
into lines on its own, and they are numbered from the line where it begins.  They are the lines that
the index of the whole text has for its characters (`TokenStream.counted_lines_agree`), because

* a piece does not begin inside a line break (`exists_around`, `exists_around_comment`), so the
  lines of the text go on in it;
* a token ends with a character that breaks no line (`Lexeme.IsScanned.keepsLine_getLast`), so it
  has one line more than breaks, and the last one is that of its last character;
* a comment without its marks has the same letters and digits on the same lines, since the marks
  break no line (`TriviaKind.unmarks_body`).
-/

import Packrat.Metrics
import Packrat.Proofs.Text.Lines
import Packrat.Proofs.Token.Grouped

namespace Packrat

/-! ## Sorted numbers -/

section DistinctSorted

variable {x y : Nat} {xs : List Nat}

theorem distinctSorted.mem_insert : y ∈ insert x xs ↔ y = x ∨ y ∈ xs := by
  induction xs with
  | nil => simp [insert]
  | cons z zs ih =>
    rw [insert]
    split_ifs with hlt heq
    · exact List.mem_cons
    · simp [heq]
    · rw [List.mem_cons, ih, List.mem_cons]
      exact or_left_comm

theorem distinctSorted.pairwise_insert (x : Nat) (h : xs.Pairwise (· < ·)) :
    (insert x xs).Pairwise (· < ·) := by
  induction xs with
  | nil => exact List.pairwise_singleton ..
  | cons z zs ih =>
    obtain ⟨hz, hzs⟩ := List.pairwise_cons.mp h
    rw [insert]
    split_ifs with hlt heq
    · refine List.pairwise_cons.mpr ⟨?_, h⟩
      rintro y (_ | ⟨_, hy⟩)
      · exact hlt
      · exact Nat.lt_trans hlt (hz y hy)
    · exact h
    · refine List.pairwise_cons.mpr ⟨fun y hy => ?_, ih hzs⟩
      rcases mem_insert.mp hy with rfl | hy
      · omega
      · exact hz y hy

theorem distinctSorted.length_insert_le (x : Nat) (xs : List Nat) :
    (insert x xs).length ≤ xs.length + 1 := by
  induction xs with
  | nil => exact Nat.le_refl _
  | cons z zs ih =>
    rw [insert]
    split_ifs
    · exact Nat.le_refl _
    · exact Nat.le_succ _
    · exact Nat.succ_le_succ ih

/-- The numbers are those of the list. -/
theorem mem_distinctSorted : y ∈ distinctSorted xs ↔ y ∈ xs := by
  induction xs with
  | nil => exact Iff.rfl
  | cons x xs ih =>
    rw [List.mem_cons, ← ih]
    exact distinctSorted.mem_insert

/-- **The numbers rise**, so that none is there twice. -/
theorem pairwise_distinctSorted (xs : List Nat) : (distinctSorted xs).Pairwise (· < ·) := by
  induction xs with
  | nil => exact .nil
  | cons x xs ih => exact distinctSorted.pairwise_insert x ih

/-- There are no more of them than in the list. -/
theorem length_distinctSorted_le (xs : List Nat) : (distinctSorted xs).length ≤ xs.length := by
  induction xs with
  | nil => exact Nat.le_refl _
  | cons x xs ih =>
    exact Nat.le_trans (distinctSorted.length_insert_le x _) (Nat.succ_le_succ ih)

end DistinctSorted

/-! ## Comments without their marks -/

namespace TriviaKind

open Text

/-- The characters that marks of comments are made of. -/
def marks : List Char := ['/', '*', '!']

theorem mem_marks_of_all {cs : List Char} (h : cs.all marks.contains = true) :
    ∀ c ∈ cs, c ∈ marks := fun c hc => List.contains_iff_mem.mp (List.all_eq_true.mp h c hc)

/-- Marks are no letters or digits and break no line. -/
theorem marks_plain : ∀ c ∈ marks, KeepsLine c ∧ isAlphanumeric c = false := by
  have hall : marks.all (fun c => decide (KeepsLine c ∧ isAlphanumeric c = false)) = true := by
    decide
  exact fun c hc => of_decide_eq_true (List.all_eq_true.mp hall c hc)

/-- A comment without the marks at its two ends is a part of it. -/
def Unmarks (body text : List Char) : Prop :=
  ∃ opening closing, text = opening ++ body ++ closing ∧ ∀ c ∈ opening ++ closing, c ∈ marks

theorem Unmarks.refl (text : List Char) : Unmarks text text := ⟨[], [], by simp, by simp⟩

theorem Unmarks.of_append {opening body : List Char} (h : ∀ c ∈ opening, c ∈ marks) :
    Unmarks body (opening ++ body) := ⟨opening, [], by simp, by simpa using h⟩

/-- Marks behind marks. -/
theorem Unmarks.trans {body inner text : List Char} (h : Unmarks body inner)
    (h' : Unmarks inner text) : Unmarks body text := by
  obtain ⟨opening, closing, rfl, hmarks⟩ := h
  obtain ⟨opening', closing', rfl, hmarks'⟩ := h'
  refine ⟨opening' ++ opening, closing ++ closing', by simp, ?_⟩
  simp only [List.mem_append] at hmarks hmarks' ⊢
  grind

/-- Marks at the start are taken away, where they stand. -/
theorem unmarks_afterPrefix? {opening : List Char} (h : ∀ c ∈ opening, c ∈ marks)
    (text : List Char) : Unmarks ((afterPrefix? opening text).getD text) text := by
  cases hafter : afterPrefix? opening text with
  | none => exact .refl text
  | some rest =>
    rw [afterPrefix?_eq_some_iff.mp hafter]
    exact .of_append h

theorem unmarks_stripBlock {opening : String} (h : ∀ c ∈ opening.toList, c ∈ marks)
    (text : List Char) : Unmarks (stripBlock opening text) text := by
  refine Unmarks.trans ?_ (unmarks_afterPrefix? h text)
  simp only [stripBlock]
  generalize (afterPrefix? opening.toList text).getD text = inner
  cases hafter : afterPrefix? ['/', '*'] inner.reverse with
  | none => exact .refl inner
  | some rest =>
    refine ⟨[], ['*', '/'], ?_, mem_marks_of_all (by decide)⟩
    have hinner := congrArg List.reverse (afterPrefix?_eq_some_iff.mp hafter)
    simpa using hinner

/-- **What is taken away from a comment is marks.** -/
theorem unmarks_body (kind : TriviaKind) (text : List Char) : Unmarks (kind.body text) text := by
  cases kind with
  | whitespace => exact .refl text
  | shebang => exact .refl text
  | lineComment =>
    have hopening : ∀ c ∈ text.takeWhile (· = '/'), c ∈ marks := by
      intro c hc
      obtain rfl : c = '/' := by simpa using List.all_eq_true.mp List.all_takeWhile c hc
      decide
    have hbody : Unmarks (text.dropWhile (· = '/'))
        (text.takeWhile (· = '/') ++ text.dropWhile (· = '/')) := .of_append hopening
    rwa [List.takeWhile_append_dropWhile] at hbody
  | blockComment => exact unmarks_stripBlock (mem_marks_of_all (by decide)) text
  | innerDoc =>
    simp only [body]
    cases hafter : afterPrefix? "//!".toList text with
    | none => exact unmarks_stripBlock (mem_marks_of_all (by decide)) text
    | some rest =>
      rw [afterPrefix?_eq_some_iff.mp hafter]
      exact .of_append (mem_marks_of_all (by decide))
  | outerDoc =>
    simp only [body]
    cases hafter : afterPrefix? "///".toList text with
    | none => exact unmarks_stripBlock (mem_marks_of_all (by decide)) text
    | some rest =>
      rw [afterPrefix?_eq_some_iff.mp hafter]
      exact .of_append (mem_marks_of_all (by decide))

/-- **Letters and digits of a comment are on the lines where they are without the marks.** -/
theorem hasOnLine_body (kind : TriviaKind) (text : List Char) (n : Nat) :
    HasOnLine isAlphanumeric n (kind.body text) ↔ HasOnLine isAlphanumeric n text := by
  obtain ⟨opening, closing, htext, hmarks⟩ := unmarks_body kind text
  have hopening : ∀ c ∈ opening, KeepsLine c ∧ isAlphanumeric c = false := fun c hc =>
    marks_plain c (hmarks c (List.mem_append_left _ hc))
  have hclosing : ∀ c ∈ closing, isAlphanumeric c = false := fun c hc =>
    (marks_plain c (hmarks c (List.mem_append_right _ hc))).2
  generalize kind.body text = body at htext ⊢
  rw [htext, hasOnLine_append_right hclosing, hasOnLine_append_left hopening]

end TriviaKind

/-! ## Lines of tokens and comments -/

namespace TokenStream

open Text LineIndex

variable {text : List Char} {s : TokenStream} {t : Token} {v : Trivia} {l : Nat}

/-- No letter or digit breaks a line. -/
theorem isAlphanumeric_break : isAlphanumeric '\n' = false ∧ isAlphanumeric '\r' = false := by
  decide

/-- The lines with a letter or a digit of a comment, counted from the line where it begins. -/
theorem mem_spokenLines : l ∈ spokenLines v ↔
    ∃ n, l = v.position.line + n ∧ HasOnLine isAlphanumeric n v.text.toList := by
  have hbody : v.body.toList = v.kind.body v.text.toList := String.toList_ofList
  have hline : ∀ n, HasOnLine isAlphanumeric n v.text.toList ↔
      ∃ line, (lines v.body.toList)[n]? = some line ∧ line.any isAlphanumeric = true := by
    intro n
    rw [any_lines_iff isAlphanumeric_break.1 isAlphanumeric_break.2, hbody,
      TriviaKind.hasOnLine_body]
  rw [spokenLines, List.mem_filterMap]
  constructor
  · rintro ⟨⟨line, number⟩, hmem, hspoken⟩
    obtain ⟨hle, hget⟩ := List.mk_mem_zipIdx_iff_le_and_getElem?_sub.mp hmem
    dsimp only at hspoken
    split at hspoken
    · next hany =>
      cases hspoken
      exact ⟨l - v.position.line, by omega, (hline _).mpr ⟨line, hget, hany⟩⟩
    · cases hspoken
  · rintro ⟨n, rfl, hspoken⟩
    obtain ⟨line, hget, hany⟩ := (hline n).mp hspoken
    refine ⟨(line, v.position.line + n), ?_, by simp only [hany, if_true]⟩
    exact List.mk_mem_zipIdx_iff_le_and_getElem?_sub.mpr ⟨Nat.le_add_right .., by simpa using hget⟩

/-- The line of a piece is that of the breaks before it. -/
theorem line_of_isBehind {pre : List Char} {p : Piece} (h : p.IsBehind pre) :
    p.position.line = breaks pre + 1 := by
  rw [h.position, Cursor.line_advance]

/-- A token ends with a character that breaks no line. -/
theorem keepsLine_getLast (hs : ofText text = .ok s) (ht : t ∈ s.tokens) (hkind : t.kind ≠ .eof) :
    ∀ d ∈ t.text.toList.getLast?, KeepsLine d := by
  obtain ⟨ts, eof, htokens, heof, -, hscanned⟩ := ofText_tokens hs
  have hmem : t ∈ ts ++ [eof] := by
    rw [← htokens]
    exact Array.mem_toList_iff.mpr ht
  rcases List.mem_append.mp hmem with hmem | hlast
  · obtain ⟨htrivia, hscan⟩ := hscanned t hmem
    refine hscan.keepsLine_getLast fun hspace => ?_
    rw [hspace] at htrivia
    cases htrivia
  · exact absurd (List.mem_singleton.mp hlast ▸ heof) hkind

/-- A piece that ends with a character that breaks no line has one line more than there are breaks
before this character. -/
theorem length_lines_snoc {init : List Char} {c : Char} (hc : KeepsLine c) :
    (lines (init ++ [c])).length = breaks init + 1 := by
  have hlast : (init ++ [c]).getLast? ≠ some '\r' := by
    rw [List.getLast?_concat]
    exact fun h => hc.2 (Option.some.inj h)
  have hsplit : ¬ SplitsBreak init [c] := fun h => hc.1 (Option.some.inj h.2)
  rw [length_lines hlast, breaks_append hsplit, breaks_cons_of_keepsLine hc, breaks_nil,
    Nat.add_zero]

/-- A token begins at a character, which is on the line of the token, and goes to one on the last of
the lines that are cut from it. -/
theorem exists_ends (hs : ofText text = .ok s) (ht : t ∈ s.tokens) (hkind : t.kind ≠ .eof) :
    ∃ first last c, HoldsAt text t.range.start first ∧ HoldsAt text last c ∧
      t.range.start ≤ last ∧ last + c.utf8Size = t.range.stop ∧
      lineOf text t.range.start = t.position.line ∧
      lineOf text last + 1 = t.position.line + (lines t.text.toList).length := by
  obtain ⟨pre, post, htext, hbehind, hfeed, hends⟩ := exists_around hs ht
  have hne : t.text.toList ≠ [] := (hends.resolve_left fun h => hkind h.1).2
  have hplain := keepsLine_getLast hs ht hkind
  have hstart : t.range.start = byteSize pre := hbehind.start
  have hstop : t.range.stop = byteSize pre + byteSize t.text.toList := hbehind.stop
  have hline : t.position.line = breaks pre + 1 := line_of_isBehind hbehind
  rw [List.head?_append_of_ne_nil _ hne] at hfeed
  have hcut : ¬ SplitsBreak pre t.text.toList := fun h => hfeed h.2
  rw [hstart, hstop, hline]
  generalize t.text.toList = part at *
  subst htext
  have hfirst : ∃ first, HoldsAt (pre ++ part ++ post) (byteSize pre) first ∧
      lineOf (pre ++ part ++ post) (byteSize pre) = breaks pre + 1 := by
    obtain ⟨first, rest, rfl⟩ := List.exists_cons_of_ne_nil hne
    have hholds := holdsAt_append pre [] rest post first
    have hfirstLine : lineOf (pre ++ ([] ++ first :: rest) ++ post) (byteSize (pre ++ [])) =
        breaks pre + 1 + breaks [] := lineOf_inside hcut fun h => hfeed (by rw [h]; rfl)
    rw [List.append_nil] at hholds hfirstLine
    exact ⟨first, hholds, hfirstLine⟩
  obtain ⟨first, hholds, hfirstLine⟩ := hfirst
  obtain ⟨init, last, rfl⟩ := (List.eq_nil_or_concat part).resolve_left hne
  rw [List.concat_eq_append] at *
  have hlast : KeepsLine last := hplain last (by simp)
  refine ⟨first, byteSize (pre ++ init), last, hholds, holdsAt_append pre init [] post last, ?_, ?_,
    hfirstLine, ?_⟩
  · rw [byteSize_append]
    omega
  · rw [byteSize_append, byteSize_append, byteSize, byteSize]
    omega
  · rw [length_lines_snoc hlast, lineOf_inside hcut hlast.1]
    omega

/-- The letters and digits of a comment are on the lines that the index has for them. -/
theorem mem_spokenLines_iff (hs : ofText text = .ok s) (hv : v ∈ s.trivia)
    (hkind : v.kind.isComment = true) : l ∈ spokenLines v ↔ ∃ offset c, HoldsAt text offset c ∧
      v.range.start ≤ offset ∧ offset + c.utf8Size ≤ v.range.stop ∧ isAlphanumeric c = true ∧
      lineOf text offset = l := by
  obtain ⟨pre, post, htext, hbehind, hcut⟩ := exists_around_comment hs hv hkind
  have hstart : v.range.start = byteSize pre := hbehind.start
  have hstop : v.range.stop = byteSize pre + byteSize v.text.toList := hbehind.stop
  have hline : v.position.line = breaks pre + 1 := line_of_isBehind hbehind
  have hfeed : ∀ {c}, isAlphanumeric c = true → c ≠ '\n' := by
    rintro c hc rfl
    rw [isAlphanumeric_break.1] at hc
    cases hc
  rw [mem_spokenLines, hstart, hstop, hline]
  generalize v.text.toList = part at *
  subst htext
  constructor
  · rintro ⟨n, rfl, init, c, rest, rfl, hc, rfl⟩
    refine ⟨byteSize (pre ++ init), c, holdsAt_append .., ?_, ?_, hc, lineOf_inside hcut (hfeed hc)⟩
    · rw [byteSize_append]
      omega
    · rw [byteSize_append, byteSize_append, byteSize]
      omega
  · rintro ⟨offset, c, hholds, hge, hle, hc, rfl⟩
    obtain ⟨init, rest, rfl, rfl⟩ := hholds.exists_inside hge hle
    exact ⟨breaks init, lineOf_inside hcut (hfeed hc), init, c, rest, rfl, hc, rfl⟩

/-- The lines counted from a stream are those that the index of its text has. -/
structure CountsLines (text : List Char) (s : TokenStream) : Prop where
  /-- Lines of code rise, and none is counted twice. -/
  code_rises : s.codeLines.Pairwise (· < ·)
  /-- A line of code is one from the first character of a token to its last. -/
  code : ∀ l, l ∈ s.codeLines ↔ ∃ t ∈ s.tokens, t.kind ≠ .eof ∧ ∃ first last c,
    HoldsAt text t.range.start first ∧ HoldsAt text last c ∧ t.range.start ≤ last ∧
    last + c.utf8Size = t.range.stop ∧ lineOf text t.range.start ≤ l ∧ l ≤ lineOf text last
  /-- Comment lines rise, and none is counted twice. -/
  comment_rises : s.commentLines.Pairwise (· < ·)
  /-- A comment line has a letter or a digit inside a comment that is not in front of the first
  token. -/
  comment : ∀ l, l ∈ s.commentLines ↔ ∃ t ∈ s.tokens.toList.drop 1, ∃ v ∈ t.trivia,
    v.kind.isComment = true ∧ ∃ offset c, HoldsAt text offset c ∧ v.range.start ≤ offset ∧
    offset + c.utf8Size ≤ v.range.stop ∧ isAlphanumeric c = true ∧ lineOf text offset = l

/-- **Counted lines are lines of the index.**  If a text has a stream, its lines of code are those
between the first and the last character of a token, and its comment lines those with a letter or a
digit of a comment behind the first token, where lines are those of the index of the text. -/
theorem counted_lines_agree (hs : ofText text = .ok s) : CountsLines text s where
  code_rises := pairwise_distinctSorted _
  comment_rises := pairwise_distinctSorted _
  code l := by
    rw [codeLines, mem_distinctSorted, List.mem_flatMap]
    constructor
    · rintro ⟨t, ht, hl⟩
      obtain ⟨ht, hkind⟩ := List.mem_filter.mp ht
      replace ht : t ∈ s.tokens := Array.mem_toList_iff.mp ht
      replace hkind : t.kind ≠ .eof := bne_iff_ne.mp hkind
      obtain ⟨first, last, c, hfirst, hlast, hle, hstop, hline, hlastLine⟩ :=
        exists_ends hs ht hkind
      have hrange := List.mem_range'_1.mp hl
      exact ⟨t, ht, hkind, first, last, c, hfirst, hlast, hle, hstop, by omega, by omega⟩
    · rintro ⟨t, ht, hkind, -, last, c, -, hlast, hle, hstop, hge, hupTo⟩
      obtain ⟨-, last', c', -, hlast', -, hstop', hline, hlastLine⟩ := exists_ends hs ht hkind
      obtain rfl : last = last' := hlast.eq_of_stop hlast' (hstop.trans hstop'.symm)
      refine ⟨t, List.mem_filter.mpr ⟨Array.mem_toList_iff.mpr ht, bne_iff_ne.mpr hkind⟩, ?_⟩
      exact List.mem_range'_1.mpr ⟨by omega, by omega⟩
  comment l := by
    rw [commentLines, mem_distinctSorted, List.mem_flatMap]
    refine exists_congr fun t => and_congr_right fun ht => ?_
    rw [List.mem_flatMap]
    constructor
    · rintro ⟨v, hv, hl⟩
      obtain ⟨hv, hkind⟩ := List.mem_filter.mp hv
      have hmem : v ∈ s.trivia := List.mem_flatMap.mpr ⟨t, List.mem_of_mem_drop ht, hv⟩
      exact ⟨v, hv, hkind, (mem_spokenLines_iff hs hmem hkind).mp hl⟩
    · rintro ⟨v, hv, hkind, hl⟩
      have hmem : v ∈ s.trivia := List.mem_flatMap.mpr ⟨t, List.mem_of_mem_drop ht, hv⟩
      exact ⟨v, List.mem_filter.mpr ⟨hv, hkind⟩, (mem_spokenLines_iff hs hmem hkind).mpr hl⟩

/-- Comments of one and of more lines, with line breaks of three forms and a comment in front of the
first token, and a string over four lines. -/
def commentedText : List Char :=
  "// a\r\nf/* b\r\r\n é */\r\"x\r\n\r\ny\n\" ///\n//! z\r\n/**/g/*!\n1*//*-\n*/".toList

/-- The condition can be met. -/
theorem counted_lines_agree_commented : ∃ s, ofText commentedText = .ok s ∧
    s.codeLines = [2, 5, 6, 7, 8, 10] ∧ s.commentLines = [2, 4, 9, 11] ∧
    CountsLines commentedText s := by
  obtain ⟨s, hs, hlines⟩ := exists_of_any commentedText (fun s =>
    s.codeLines = [2, 5, 6, 7, 8, 10] && s.commentLines = [2, 4, 9, 11]) (by decide +kernel)
  simp only [Bool.and_eq_true, decide_eq_true_eq] at hlines
  exact ⟨s, hs, hlines.1, hlines.2, counted_lines_agree hs⟩

end TokenStream
end Packrat
