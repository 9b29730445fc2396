/-
# Positions of tokens and of faults

While a text is cut, a cursor walks over its lexemes and tells the position of each; a line index
is asked afterwards, with an offset.  The two give one position wherever no line break has been cut
in two (`LineIndex.position_ofText_iff`).  So the question is which cuts between lexemes go through
a line break:

* No recogniser leaves one (`Lexeme.scan_not_splits`).
* The interpreter line does, when it ends with a return: it is read up to the line feed, and the
  whitespace behind it begins inside the line break (`Lexeme.CutsBreak`).

Tokens and faults stand where the index says, because none begins with a line feed
(`TokenStream.positions_agree`).  So do all trivia but the one behind such an interpreter line,
which has the position of the byte behind its start (`TokenStream.trivia_positions_agree`).
-/

import Mathlib.Data.List.Basic
import Packrat.Proofs.Lexeme.LineBreak
import Packrat.Proofs.Token.Layout

namespace Packrat
namespace Lexeme

open Text

/-- The interpreter line of the text ends inside a line break, at the offset. -/
def CutsBreak (text : List Char) (offset : Nat) : Prop :=
  ∃ n, shebangSize? text = some n ∧ SplitsBreak (text.take n) (text.drop n) ∧
    offset = Text.byteSize (text.take n)

/-- A recogniser does not leave a line break cut in two, whatever stands in front. -/
theorem not_splitsBreak_of_itemsFrom {before cs : List Char} {start : Nat} {ls ls' : List Lexeme}
    (h : itemsFrom before start [] cs = (ls ++ ls').map .ok) (hne : ls ≠ []) (pre : List Char) :
    ¬ SplitsBreak (pre ++ textOf ls) (textOf ls') := by
  obtain ⟨init, l, rfl⟩ := (List.eq_nil_or_concat ls).resolve_left hne
  rw [List.concat_eq_append] at h ⊢
  rw [List.append_assoc, List.singleton_append, List.map_append, List.map_cons] at h
  obtain ⟨before', rest, -, -, hitems⟩ := exists_rest_of_itemsFrom h
  obtain ⟨c, rest, kind, -, hresult, rfl, htail⟩ := itemsFrom_eq_ok hitems.symm
  rw [textOf_append, textOf_cons, textOf_nil, List.append_nil, ← List.append_assoc,
    splitsBreak_append (List.cons_ne_nil _ _), (textOf_of_itemsFrom htail.symm).1]
  exact scan_not_splits hresult

/-- **Only the interpreter line leaves a line break cut in two.** -/
theorem splitsBreak_iff {text : List Char} {ls ls' : List Lexeme}
    (h : items text = (ls ++ ls').map .ok) :
    SplitsBreak (textOf ls) (textOf ls') ↔ CutsBreak text (Text.byteSize (textOf ls)) := by
  have htext := (textOf_items h).1
  rw [textOf_append] at htext
  constructor
  · intro hbreak
    have hne : ls ≠ [] := by
      rintro rfl
      cases hbreak.1
    cases hsize : shebangSize? text with
    | none =>
      rw [items_of_none hsize] at h
      exact absurd hbreak (not_splitsBreak_of_itemsFrom h hne [])
    | some n =>
      rw [items_of_some hsize] at h
      cases ls with
      | nil => exact absurd rfl hne
      | cons l ls =>
        rw [List.cons_append, List.map_cons] at h
        obtain ⟨hhead, hrest⟩ := List.cons_eq_cons.mp h
        cases hhead
        by_cases hnil : ls = []
        · -- the cut is the one behind the interpreter line
          subst hnil
          have hdrop := (textOf_of_itemsFrom hrest).1
          rw [List.nil_append] at hdrop
          rw [textOf_cons, textOf_nil, List.append_nil] at hbreak ⊢
          exact ⟨n, hsize, hdrop ▸ hbreak, rfl⟩
        · rw [textOf_cons] at hbreak
          exact absurd hbreak (not_splitsBreak_of_itemsFrom hrest hnil _)
  · rintro ⟨n, -, hbreak, hsize⟩
    have hparts : textOf ls ++ textOf ls' = text.take n ++ text.drop n := by
      rw [htext, List.take_append_drop]
    obtain ⟨hls, hls'⟩ := append_inj_of_byteSize hparts hsize
    rwa [hls, hls']

end Lexeme

namespace TokenStream

variable {text : List Char} {s : TokenStream} {t : Token}

/-- A token stands in the text, and not inside a line break.  Only the end of the text is empty. -/
theorem exists_around (hs : ofText text = .ok s) (ht : t ∈ s.tokens) :
    ∃ pre post, text = pre ++ t.text.toList ++ post ∧ t.piece.IsBehind pre ∧
      (t.text.toList ++ post).head? ≠ some '\n' ∧
      (t.kind = .eof ∧ t.text.toList = [] ∧ post = [] ∨ t.kind ≠ .eof ∧ t.text.toList ≠ []) := by
  obtain ⟨hlaid, ts, eof, htokens, hkind, hempty, hbehind, hfull⟩ := laidOut_pieces hs
  obtain ⟨ts', eof', htokens', -, -, hscanned⟩ := ofText_tokens hs
  obtain ⟨rfl, -⟩ := List.append_inj' (htokens.symm.trans htokens') rfl
  have hmem : t ∈ s.tokens.toList := Array.mem_toList_iff.mpr ht
  rw [htokens] at hmem
  rcases List.mem_append.mp hmem with hmem | hlast
  · obtain ⟨pre, post, htext, hpre⟩ := hlaid.of_mem t.piece (List.mem_flatMap.mpr
      ⟨t, by rw [htokens]; exact List.mem_append_left _ hmem, by simp [Token.pieces]⟩)
    rw [List.nil_append] at htext
    have hne : t.text.toList ≠ [] := by
      intro hnil
      refine hfull t.piece (List.mem_append_left _ (List.mem_flatMap.mpr ⟨t, hmem, ?_⟩))
        (String.toList_eq_nil_iff.mp hnil)
      simp [Token.pieces]
    obtain ⟨htrivia, hscan⟩ := hscanned t hmem
    refine ⟨pre, post, htext, hpre, ?_, .inr ⟨hscan.kind_ne_eof, hne⟩⟩
    rw [List.head?_append_of_ne_nil _ hne]
    exact hscan.head_ne_feed htrivia
  · obtain rfl := List.mem_singleton.mp hlast
    have hnil : t.text.toList = [] := by rw [hempty]; rfl
    exact ⟨text, [], by simp [hnil], hbehind, by simp [hnil], .inl ⟨hkind, hnil, rfl⟩⟩


/-- Every piece of what has been read is behind the text of some lexemes. -/
theorem Reader.IsAt.exists_lexeme {ls : List Lexeme} : ∀ {r : Reader} {before : List Char},
    r.IsAt before → Lexeme.InRow (Text.byteSize before) ls →
      ∀ p ∈ (ls.foldl Reader.push r).pieces, p ∈ r.pieces ∨ ∃ init l rest,
        ls = init ++ l :: rest ∧ p.IsBehind (before ++ Lexeme.textOf init) := by
  induction ls with
  | nil => exact fun _ _ p hp => .inl hp
  | cons l ls ih =>
    intro r before h hrow p hp
    obtain ⟨hstart, -, hrest⟩ := hrow
    rw [← Text.byteSize_append] at hrest
    rcases ih (h.push hstart) hrest p hp with hold | ⟨init, l', rest, rfl, hbehind⟩
    · rw [pieces_push] at hold
      rcases List.mem_append.mp hold with hold | hnew
      · exact .inl hold
      · obtain rfl := List.mem_singleton.mp hnew
        refine .inr ⟨[], l, ls, rfl, ?_⟩
        rw [Lexeme.textOf_nil, List.append_nil]
        exact h.isBehind hstart
    · refine .inr ⟨l :: init, l', rest, rfl, ?_⟩
      rwa [Lexeme.textOf_cons, ← List.append_assoc]

/-- The trivia of a stream have been read. -/
theorem Reader.mem_pieces_of_mem_trivia {r : Reader} {v : Trivia} (h : v ∈ r.finish.trivia) :
    v.piece ∈ r.pieces := by
  obtain ⟨t, ht, hv⟩ := List.mem_flatMap.mp h
  have htokens : r.finish.tokens.toList = r.tokens.reverse ++
      [⟨.eof, "", ⟨r.offset, r.offset⟩, r.cursor.position, r.waiting.reverse⟩] := List.reverse_cons
  rw [htokens] at ht
  rcases List.mem_append.mp ht with ht | heof
  · refine List.mem_append_left _ (List.mem_flatMap.mpr ⟨t, ht, ?_⟩)
    exact List.mem_append_left _ (List.mem_map_of_mem hv)
  · obtain rfl := List.mem_singleton.mp heof
    exact List.mem_append_right _ (List.mem_map_of_mem hv)

/-- A stream that has been computed. -/
theorem exists_of_any (text : List Char) (p : TokenStream → Bool)
    (h : (ofText text).toOption.any p = true) : ∃ s, ofText text = .ok s ∧ p s = true := by
  cases hs : ofText text with
  | error e => rw [hs] at h; cases h
  | ok s =>
    rw [hs] at h
    exact ⟨s, rfl, h⟩

/-- Line breaks of three forms, one of them in a string, and characters of two bytes. -/
def foldedText : List Char := "#!x\r\nlet é = \"ü\r\n\";\r\t// é\n b".toList

/-- **Two ways to the position of trivia agree, but behind an interpreter line that ends with a
return.**  There the cursor has taken the return for a line break, and the index waits for the line
feed: so the whitespace behind the line has the position of the byte behind its start. -/
theorem trivia_positions_agree (hs : ofText text = .ok s) : ∀ v ∈ s.trivia,
    (v.position = (LineIndex.ofText text).position v.range.start ↔
      ¬ Lexeme.CutsBreak text v.range.start) ∧
    (Lexeme.CutsBreak text v.range.start →
      v.position = (LineIndex.ofText text).position (v.range.start + 1)) := by
  intro v hv
  obtain ⟨ls, hitems, rfl⟩ := ofItems_eq_ok {} hs
  have hstart : ({} : Reader).IsAt [] := ⟨rfl, rfl⟩
  obtain ⟨init, l, rest, rfl, hbehind⟩ := (hstart.exists_lexeme (Lexeme.inRow_items hitems) _
    (Reader.mem_pieces_of_mem_trivia hv)).resolve_left (by simp [Reader.pieces])
  rw [List.nil_append] at hbehind
  have hoffset : v.range.start = Text.byteSize (Lexeme.textOf init) := hbehind.start
  have hposition : v.position = (Cursor.advance {} (Lexeme.textOf init)).position :=
    hbehind.position
  have htext := (Lexeme.textOf_items hitems).1
  rw [Lexeme.textOf_append] at htext
  have hcut := Lexeme.splitsBreak_iff hitems
  rw [hoffset, ← hcut, hposition, ← htext]
  exact ⟨LineIndex.position_ofText_iff,
    fun hbreak => (LineIndex.position_of_splitsBreak hbreak).1.symm⟩

/-- The condition can be met, and there is a text whose interpreter line ends with a return. -/
theorem trivia_positions_agree_folded : ∃ s, ofText foldedText = .ok s ∧
    Lexeme.CutsBreak foldedText 4 ∧ ∀ v ∈ s.trivia,
      (v.position = (LineIndex.ofText foldedText).position v.range.start ↔
        ¬ Lexeme.CutsBreak foldedText v.range.start) ∧
      (Lexeme.CutsBreak foldedText v.range.start →
        v.position = (LineIndex.ofText foldedText).position (v.range.start + 1)) := by
  have hcut : Lexeme.CutsBreak foldedText 4 := ⟨4, by decide, by decide, by decide⟩
  obtain ⟨s, hs, -⟩ := exists_of_any foldedText (fun s => s.size = 7)
    (by decide +kernel)
  exact ⟨s, hs, hcut, trivia_positions_agree hs⟩

/-- The whitespace behind an interpreter line is on the second line, and the index has it on the
first. -/
theorem trivia_behind_return : ∃ s, ofText "#!x\r\n".toList = .ok s ∧ ∃ v ∈ s.trivia,
    v.position = ⟨2, 0⟩ ∧
      (LineIndex.ofText "#!x\r\n".toList).position v.range.start = ⟨1, 4⟩ := by
  obtain ⟨s, hs, hany⟩ := exists_of_any "#!x\r\n".toList (fun s =>
    s.trivia.any fun v => v.position = ⟨2, 0⟩ ∧
      (LineIndex.ofText "#!x\r\n".toList).position v.range.start = ⟨1, 4⟩) (by decide +kernel)
  obtain ⟨v, hv, hposition⟩ := List.any_eq_true.mp hany
  exact ⟨s, hs, v, hv, of_decide_eq_true hposition⟩

end TokenStream
end Packrat
