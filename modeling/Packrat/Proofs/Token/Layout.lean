/-
# Where tokens lie

Trivia and tokens, in the order in which a stream holds them, are *pieces* of the text: each
begins where the piece before it ends, holds the text between its two ends and knows its line
and column (`TokenStream.laidOut_pieces`).  The stretch of pieces is told from the text alone:

| of a piece behind the text `before` | is |
| --- | --- |
| the start | the number of bytes of `before` |
| the stop | as many bytes further as the piece has |
| the position | where a cursor is that has walked over `before` |

What follows for a whole stream is `TokenStream.IsLossless`.
-/

import Packrat.Proofs.Text.Measure
import Packrat.Proofs.Token.Stream

namespace Packrat

/-- A stretch of a text: its bytes, its position and what it holds. -/
structure Piece where
  range : Range
  position : Position
  text : String

/-- The stretch of a trivia. -/
def Trivia.piece (t : Trivia) : Piece := ⟨t.range, t.position, t.text⟩

namespace Token

/-- The stretch of a token without its trivia. -/
def piece (t : Token) : Piece := ⟨t.range, t.position, t.text⟩

/-- The stretches of a token's trivia and of the token itself. -/
def pieces (t : Token) : List Piece := t.trivia.map Trivia.piece ++ [t.piece]

end Token

/-- The stretches of all trivia and tokens of a stream, in order. -/
def TokenStream.pieces (s : TokenStream) : List Piece := s.tokens.toList.flatMap Token.pieces

/-- Ranges that follow each other without a gap, from one offset to another. -/
def Range.Chain : Nat → List Range → Nat → Prop
  | start, [], stop => start = stop
  | start, r :: rs, stop => r.start = start ∧ r.start ≤ r.stop ∧ Chain r.stop rs stop

/-- Every range of a chain begins behind the ranges before it. -/
theorem Range.Chain.pairwise {rs : List Range} : ∀ {start stop : Nat}, Chain start rs stop →
    (∀ r ∈ rs, start ≤ r.start) ∧ rs.Pairwise fun a b => a.stop ≤ b.start := by
  induction rs with
  | nil => exact fun _ => ⟨by simp, .nil⟩
  | cons r rs ih =>
    intro start stop h
    obtain ⟨rfl, hle, hrest⟩ := h
    obtain ⟨hstart, hpairs⟩ := ih hrest
    constructor
    · rintro r' (_ | ⟨_, hr'⟩)
      · exact Nat.le_refl _
      · exact Nat.le_trans hle (hstart r' hr')
    · exact List.pairwise_cons.mpr ⟨hstart, hpairs⟩

namespace Piece

/-- The piece begins right behind a text. -/
structure IsBehind (before : List Char) (p : Piece) : Prop where
  start : p.range.start = Text.byteSize before
  stop : p.range.stop = Text.byteSize before + Text.byteSize p.text.toList
  position : p.position = (Cursor.advance {} before).position

/-- The pieces stand behind the text `before`, one after the other, and hold `text`. -/
inductive LaidOut : List Char → List Piece → List Char → Prop where
  | nil {before} : LaidOut before [] []
  | cons {before p ps text} : IsBehind before p → LaidOut (before ++ p.text.toList) ps text →
    LaidOut before (p :: ps) (p.text.toList ++ text)

namespace LaidOut

variable {before text : List Char} {ps : List Piece}

theorem singleton {p : Piece} (h : IsBehind before p) : LaidOut before [p] p.text.toList := by
  have hcons : LaidOut before [p] (p.text.toList ++ []) := .cons h .nil
  rwa [List.append_nil] at hcons

theorem append (h : LaidOut before ps text) {qs : List Piece} {more : List Char}
    (h' : LaidOut (before ++ text) qs more) : LaidOut before (ps ++ qs) (text ++ more) := by
  induction h with
  | nil => rwa [List.append_nil] at h'
  | cons hp _ ih =>
    rw [List.append_assoc]
    exact .cons hp (ih (by rwa [List.append_assoc]))

/-- The ranges have no gap between them. -/
theorem chain (h : LaidOut before ps text) : Range.Chain (Text.byteSize before)
    (ps.map (·.range)) (Text.byteSize before + Text.byteSize text) := by
  induction h with
  | nil => rfl
  | @cons before p ps text hp _ ih =>
    refine ⟨hp.start, ?_, ?_⟩
    · rw [hp.start, hp.stop]
      exact Nat.le_add_right _ _
    · rw [hp.stop]
      rw [Text.byteSize_append] at ih
      rwa [Text.byteSize_append, ← Nat.add_assoc]

/-- Each piece holds the text between its ends, and its position is that of its start. -/
theorem of_mem (h : LaidOut before ps text) : ∀ p ∈ ps, ∃ pre post,
    before ++ text = pre ++ p.text.toList ++ post ∧ IsBehind pre p := by
  induction h with
  | nil => simp
  | @cons before p ps text hp _ ih =>
    rintro q (_ | ⟨_, hq⟩)
    · exact ⟨before, text, by rw [List.append_assoc], hp⟩
    · obtain ⟨pre, post, htext, hq⟩ := ih q hq
      exact ⟨pre, post, by rw [← htext, List.append_assoc], hq⟩

end LaidOut

/-- What stands behind a text is the slice between its two ends. -/
theorem IsBehind.slice {pre post : List Char} {p : Piece} (h : IsBehind pre p) :
    Text.slice? p.range.start p.range.stop (pre ++ p.text.toList ++ post) = some p.text.toList :=
  Text.slice?_eq_some_iff.mpr ⟨pre, post, rfl, h.start.symm, h.stop.symm⟩

end Piece

/-! ## Lexemes in a row -/

namespace Lexeme

/-- Lexemes that hold something and follow each other from an offset on. -/
def InRow : Nat → List Lexeme → Prop
  | _, [] => True
  | start, l :: ls => l.start = start ∧ l.text ≠ [] ∧ InRow (start + Text.byteSize l.text) ls

/-- Lexemes that come first are in a row, and the other items are those of the text behind
them. -/
theorem exists_rest_of_itemsFrom {ls : List Lexeme} {items : List Item} :
    ∀ {before cs : List Char} {start : Nat}, itemsFrom before start [] cs = ls.map .ok ++ items →
      ∃ before' rest, cs = textOf ls ++ rest ∧ InRow start ls ∧
        items = itemsFrom before' (start + Text.byteSize (textOf ls)) [] rest := by
  induction ls with
  | nil => exact fun {before cs start} h => ⟨before, cs, rfl, trivial, h.symm⟩
  | cons l ls ih =>
    intro before cs start h
    obtain ⟨c, cs, kind, rfl, -, rfl, htail⟩ := itemsFrom_eq_ok h
    obtain ⟨before', rest, hrest, hrow, hitems⟩ := ih htail.symm
    refine ⟨before', rest, ?_, ⟨rfl, List.cons_ne_nil _ _, hrow⟩, ?_⟩
    · rw [textOf_cons, List.append_assoc, ← hrest, List.cons_append, List.take_append_drop]
    · rw [textOf_cons, Text.byteSize_append, ← Nat.add_assoc]
      exact hitems

/-- A first line that is a lexeme of its own is not empty. -/
theorem pos_of_shebangSize? {text : List Char} {n : Nat} (h : shebangSize? text = some n) :
    text.take n ≠ [] := by
  unfold shebangSize? at h
  split at h
  · simp only at h
    split at h
    · cases h
    · cases h
      simp
  · cases h

/-- Lexemes that come first in a text, up to its end or to a fault. -/
theorem exists_rest_of_items {text : List Char} {ls : List Lexeme} {more : List Item}
    (h : items text = ls.map .ok ++ more) (hmore : ∀ l : Lexeme, more.head? ≠ some (.ok l)) :
    ∃ before rest, text = textOf ls ++ rest ∧ InRow 0 ls ∧
      more = itemsFrom before (Text.byteSize (textOf ls)) [] rest := by
  cases hsize : shebangSize? text with
  | none =>
    rw [items_of_none hsize] at h
    obtain ⟨before, rest, htext, hrow, hmore⟩ := exists_rest_of_itemsFrom h
    exact ⟨before, rest, htext, hrow, by rwa [Nat.zero_add] at hmore⟩
  | some n =>
    rw [items_of_some hsize] at h
    cases ls with
    | nil =>
      refine absurd ?_ (hmore ⟨.shebang, text.take n, 0⟩)
      rw [List.map_nil, List.nil_append] at h
      rw [← h]
      rfl
    | cons l ls =>
      obtain ⟨hhead, hrest⟩ := List.cons_eq_cons.mp h
      cases hhead
      obtain ⟨before, rest, htext, hrow, hmore⟩ := exists_rest_of_itemsFrom hrest
      refine ⟨before, rest, ?_, ⟨rfl, pos_of_shebangSize? hsize, ?_⟩, ?_⟩
      · rw [textOf_cons, List.append_assoc, ← htext, List.take_append_drop]
      · rwa [Nat.zero_add]
      · rwa [textOf_cons, Text.byteSize_append]

/-- **The lexemes of a text are in a row.** -/
theorem inRow_items {text : List Char} {ls : List Lexeme} (h : items text = ls.map .ok) :
    InRow 0 ls := by
  obtain ⟨-, -, -, hrow, -⟩ :=
    exists_rest_of_items (h.trans (List.append_nil _).symm) (by simp)
  exact hrow

end Lexeme

/-! ## Pieces of a stream -/

namespace TokenStream

/-- The pieces of what has been read. -/
def Reader.pieces (r : Reader) : List Piece :=
  r.tokens.reverse.flatMap Token.pieces ++ r.waiting.reverse.map Trivia.piece

/-- What has been read is the text `before`. -/
structure Reader.IsAt (r : Reader) (before : List Char) : Prop where
  offset : r.offset = Text.byteSize before
  cursor : r.cursor = Cursor.advance {} before

/-- The piece that a reader makes of a lexeme. -/
def Reader.pieceOf (r : Reader) (l : Lexeme) : Piece :=
  ⟨l.range, r.cursor.position, String.ofList l.text⟩

/-- A lexeme becomes one piece more. -/
theorem Reader.pieces_push (r : Reader) (l : Lexeme) :
    (r.push l).pieces = r.pieces ++ [r.pieceOf l] := by
  unfold push
  cases TriviaKind.ofKind? l.kind with
  | some kind => simp [pieces, pieceOf, Trivia.piece]
  | none => simp [pieces, pieceOf, Token.pieces, Token.piece]

/-- A lexeme that begins where the reader is moves it on behind the lexeme. -/
theorem Reader.IsAt.push {r : Reader} {before : List Char} (h : r.IsAt before) {l : Lexeme}
    (hstart : l.start = Text.byteSize before) : (r.push l).IsAt (before ++ l.text) := by
  have hcursor : r.cursor.advance l.text = Cursor.advance {} (before ++ l.text) := by
    rw [h.cursor, Cursor.advance, Cursor.advance, Cursor.advance, List.foldl_append]
  have hoffset : l.range.stop = Text.byteSize (before ++ l.text) := by
    rw [Lexeme.range, hstart, Text.byteSize_append]
  unfold Reader.push
  cases TriviaKind.ofKind? l.kind with
  | some kind => exact ⟨hoffset, hcursor⟩
  | none => exact ⟨hoffset, hcursor⟩

/-- The piece of a lexeme that begins where the reader is. -/
theorem Reader.IsAt.isBehind {r : Reader} {before : List Char} (h : r.IsAt before) {l : Lexeme}
    (hstart : l.start = Text.byteSize before) : (r.pieceOf l).IsBehind before := by
  refine ⟨hstart, ?_, by rw [pieceOf, h.cursor]⟩
  simp [pieceOf, Lexeme.range, hstart]

/-- Lexemes in a row become pieces behind each other. -/
theorem Reader.IsAt.foldl {ls : List Lexeme} : ∀ {r : Reader} {before : List Char},
    r.IsAt before → Lexeme.InRow (Text.byteSize before) ls →
      (ls.foldl Reader.push r).IsAt (before ++ Lexeme.textOf ls) ∧
        ∃ ps, (ls.foldl Reader.push r).pieces = r.pieces ++ ps ∧
          Piece.LaidOut before ps (Lexeme.textOf ls) ∧ ∀ p ∈ ps, p.text ≠ "" := by
  induction ls with
  | nil =>
    intro r before h _
    refine ⟨?_, [], by simp, ?_, by simp⟩
    · simpa using h
    · rw [Lexeme.textOf_nil]
      exact .nil
  | cons l ls ih =>
    intro r before h hrow
    obtain ⟨hstart, hne, hrest⟩ := hrow
    have htext : (r.pieceOf l).text.toList = l.text := String.toList_ofList
    rw [← Text.byteSize_append] at hrest
    obtain ⟨hat, ps, hpieces, hlaid, hfull⟩ := ih (h.push hstart) hrest
    rw [Lexeme.textOf_cons]
    refine ⟨by rwa [← List.append_assoc], r.pieceOf l :: ps, ?_, ?_, ?_⟩
    · rw [List.foldl_cons, hpieces, pieces_push, List.append_assoc, List.singleton_append]
    · rw [← htext] at hlaid ⊢
      exact .cons (h.isBehind hstart) hlaid
    · rintro p (_ | ⟨_, hp⟩)
      · intro hempty
        exact hne (by rw [← htext, hempty]; rfl)
      · exact hfull p hp

variable {text : List Char} {s : TokenStream}

/-- **The pieces of a stream lie side by side in the text.**  All are full but the last, which
is `eof` and stands behind the whole text. -/
theorem laidOut_pieces (h : ofText text = .ok s) : Piece.LaidOut [] s.pieces text ∧
    ∃ ts eof, s.tokens.toList = ts ++ [eof] ∧ eof.kind = .eof ∧ eof.text = "" ∧
      eof.piece.IsBehind text ∧
      ∀ p ∈ ts.flatMap Token.pieces ++ eof.trivia.map Trivia.piece, p.text ≠ "" := by
  obtain ⟨ls, hitems, rfl⟩ := ofItems_eq_ok {} h
  have hstart : ({} : Reader).IsAt [] := ⟨rfl, rfl⟩
  have hrow : Lexeme.InRow (Text.byteSize []) ls := Lexeme.inRow_items hitems
  obtain ⟨hat, ps, hpieces, hlaid, hfull⟩ := hstart.foldl hrow
  rw [(Lexeme.textOf_items hitems).1] at hat hlaid
  rw [List.nil_append] at hat
  generalize ls.foldl Reader.push {} = r at *
  have hps : ps = r.tokens.reverse.flatMap Token.pieces ++ r.waiting.reverse.map Trivia.piece :=
    hpieces.symm
  let eof : Token :=
    ⟨.eof, "", ⟨r.offset, r.offset⟩, r.cursor.position, r.waiting.reverse⟩
  have htokens : r.finish.tokens.toList = r.tokens.reverse ++ [eof] := List.reverse_cons
  have hbehind : eof.piece.IsBehind text :=
    ⟨hat.offset, by simp [eof, Token.piece, hat.offset, Text.byteSize],
      congrArg Cursor.position hat.cursor⟩
  constructor
  · have hall : r.finish.pieces = ps ++ [eof.piece] := by
      rw [pieces, htokens, List.flatMap_append, hps, List.append_assoc]
      simp [Token.pieces, eof]
    have hend : Piece.LaidOut ([] ++ text) [eof.piece] [] := .singleton hbehind
    have happend := hlaid.append hend
    rw [hall]
    rwa [List.append_nil] at happend
  · refine ⟨r.tokens.reverse, eof, htokens, rfl, rfl, hbehind, ?_⟩
    rwa [hps] at hfull

/-- The pieces of a token lie behind those of the tokens before it, the token itself behind
its trivia. -/
theorem trivia_between (h : Range.Chain 0 (s.pieces.map (·.range)) (Text.byteSize text))
    {ts us : List Token} {t : Token} (htokens : s.tokens.toList = ts ++ t :: us) {v : Trivia}
    (hv : v ∈ t.trivia) :
    v.range.stop ≤ t.range.start ∧ ∀ u ∈ ts, u.range.stop ≤ v.range.start := by
  obtain ⟨-, hpairs⟩ := h.pairwise
  rw [List.pairwise_map, pieces, htokens, List.flatMap_append, List.flatMap_cons] at hpairs
  obtain ⟨-, hrest, hbefore⟩ := List.pairwise_append.mp hpairs
  obtain ⟨hown, -, -⟩ := List.pairwise_append.mp hrest
  obtain ⟨-, -, hlast⟩ := List.pairwise_append.mp hown
  have hmem : v.piece ∈ t.trivia.map Trivia.piece := List.mem_map_of_mem hv
  constructor
  · exact hlast v.piece hmem t.piece (by simp)
  · intro u hu
    have hpiece : u.piece ∈ ts.flatMap Token.pieces :=
      List.mem_flatMap.mpr ⟨u, hu, by simp [Token.pieces]⟩
    exact hbefore u.piece hpiece v.piece
      (List.mem_append_left _ (List.mem_append_left _ hmem))

/-- A stream holds a text, without a gap and each piece in its place. -/
structure IsLossless (text : List Char) (s : TokenStream) : Prop where
  /-- The ranges of trivia and tokens, in order, go from the first byte to the last. -/
  chain : Range.Chain 0 (s.pieces.map (·.range)) (Text.byteSize text)
  /-- Both ends of a range lie between characters, and the piece is what stands there. -/
  slice : ∀ p ∈ s.pieces, Text.slice? p.range.start p.range.stop text = some p.text.toList
  /-- No trivia is empty. -/
  trivia_ne : ∀ v ∈ s.trivia, v.text ≠ ""
  /-- The last token is `eof` and empty, and no other token is either. -/
  eof_last : ∃ ts eof, s.tokens.toList = ts ++ [eof] ∧ (∀ t ∈ ts, t.kind ≠ .eof ∧ t.text ≠ "") ∧
    eof.kind = .eof ∧ eof.text = "" ∧ eof.range = ⟨Text.byteSize text, Text.byteSize text⟩
  /-- A trivia stands before the token that has it and behind all tokens before that one. -/
  owned : ∀ ts t us, s.tokens.toList = ts ++ t :: us → ∀ v ∈ t.trivia,
    v.range.stop ≤ t.range.start ∧ ∀ u ∈ ts, u.range.stop ≤ v.range.start
  /-- The texts of all trivia and tokens are the text. -/
  text_eq : s.text = String.ofList text

/-- **Tokenization loses nothing.**  If a text has no lexical fault, its stream holds it:
trivia and tokens in order have ranges without a gap from the first byte of the text to its
end, each holds what stands there, all are non-empty but the `eof` at the end, a trivia belongs
to the first token behind it, and the texts put together are the text. -/
theorem tokenization_lossless (h : ofText text = .ok s) : s.IsLossless text := by
  obtain ⟨hlaid, ts, eof, htokens, hkind, hempty, hbehind, hfull⟩ := laidOut_pieces h
  have hchain := hlaid.chain
  rw [Text.byteSize, Nat.zero_add] at hchain
  refine ⟨hchain, ?_, ?_, ?_, fun _ _ _ htokens _ hv => trivia_between hchain htokens hv,
    text_ofText h⟩
  · intro p hp
    obtain ⟨pre, post, htext, hbehind⟩ := hlaid.of_mem p hp
    rw [List.nil_append] at htext
    rw [htext]
    exact hbehind.slice
  · intro v hv
    obtain ⟨t, ht, hv⟩ := List.mem_flatMap.mp hv
    have hpiece : v.piece ∈ t.trivia.map Trivia.piece := List.mem_map_of_mem hv
    refine hfull v.piece ?_
    rw [htokens] at ht
    rcases List.mem_append.mp ht with hmem | hlast
    · exact List.mem_append_left _ (List.mem_flatMap.mpr ⟨t, hmem, List.mem_append_left _ hpiece⟩)
    · obtain rfl := List.mem_singleton.mp hlast
      exact List.mem_append_right _ hpiece
  · obtain ⟨ts', eof', htokens', -, -, hscanned⟩ := ofText_tokens h
    obtain ⟨rfl, -⟩ := List.append_inj' (htokens.symm.trans htokens') rfl
    refine ⟨ts, eof, htokens, fun t ht => ⟨(hscanned t ht).2.kind_ne_eof, ?_⟩, hkind, hempty, ?_⟩
    · refine hfull t.piece (List.mem_append_left _ (List.mem_flatMap.mpr ⟨t, ht, ?_⟩))
      simp [Token.pieces]
    · have hstart : eof.range.start = Text.byteSize text := hbehind.start
      have hstop : eof.range.stop = Text.byteSize text := by
        have hstop := hbehind.stop
        rw [show eof.piece.text = "" from hempty] at hstop
        exact hstop
      rw [show eof.range = ⟨eof.range.start, eof.range.stop⟩ from rfl, hstart, hstop]

/-- A text with an interpreter line, an escaped quote, a raw string, a comment in two bytes to
a character and a number in the place of a field. -/
def mixedText : List Char := "#!/x\n\"\\\"é\" r#\"a\"#/*é*/t.0.1 \n".toList

/-- The condition can be met. -/
theorem tokenization_lossless_mixed :
    ∃ s, ofText mixedText = .ok s ∧ s.size = 8 ∧ s.IsLossless mixedText := by
  have hok : ((ofText mixedText).toOption.any fun s => s.size = 8) = true := by decide +kernel
  cases hs : ofText mixedText with
  | error e => rw [hs] at hok; cases hok
  | ok s =>
    rw [hs] at hok
    exact ⟨s, rfl, of_decide_eq_true hok, tokenization_lossless hs⟩

end TokenStream
end Packrat
