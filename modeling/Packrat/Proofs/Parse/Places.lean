/-
# Where the leaves of a tree lie

The leaves of a tree stand side by side from its start on (`Located.run_of_leaves`), and so do
trivia and tokens in the text (`TokenStream.laidOut_pieces`).  Leaves cover the tokens, each behind
its trivia (`Token.Covers`), so the texts before a leaf are those before the token that it carries,
and the pieces of this token that are before it.  Hence a significant leaf lies in a token, where
the text has it (`Parse.exists_token_of_leaf`).

A token that is cut into pieces has no line break in it, and so a leaf is on the line of its token
(`Located.LiesIn.line`).
-/

import Packrat.Proofs.Parse.Framing
import Packrat.Proofs.Text.Lines

namespace Packrat

open Peg

/-! ## Tokens -/

namespace Piece

/-- A piece stands behind the texts of those before it. -/
theorem LaidOut.isBehind {before text : List Char} {ps qs : List Piece} {p : Piece}
    (h : LaidOut before (ps ++ p :: qs) text) :
    p.IsBehind (before ++ ps.flatMap (·.text.toList)) := by
  induction ps generalizing before text with
  | nil =>
    cases h with
    | cons hp _ => rwa [List.flatMap_nil, List.append_nil]
  | cons q ps ih =>
    cases h with
    | cons _ hrest =>
      rw [List.flatMap_cons, ← List.append_assoc]
      exact ih hrest

end Piece

/-- The texts of trivia, put together. -/
theorem Trivia.flatMap_piece (vs : List Trivia) : (vs.map piece).flatMap (·.text.toList) =
    (String.join (vs.map (·.text))).toList := by
  induction vs with
  | nil => rfl
  | cons v vs ih => simp [piece, String.join_cons, ih]

/-- The texts of tokens with their trivia, put together. -/
theorem Token.flatMap_pieces (ts : List Token) :
    (ts.flatMap pieces).flatMap (·.text.toList) = (String.join (ts.map fullText)).toList := by
  induction ts with
  | nil => rfl
  | cons t ts ih =>
    rw [List.flatMap_cons, List.flatMap_append, ih, pieces, List.flatMap_append,
      Trivia.flatMap_piece]
    simp [fullText, piece, String.join_cons]

namespace TokenStream

variable {text : List Char} {s : TokenStream}

/-- A token begins behind the tokens before it, with their trivia, and behind its own. -/
theorem start_of_append (hs : ofText text = .ok s) {front behind : List Token} {t : Token}
    (htoks : s.tokens.toList = front ++ t :: behind) :
    t.range.start = (String.join (front.map Token.fullText)).utf8ByteSize +
      (String.join (t.trivia.map (·.text))).utf8ByteSize := by
  obtain ⟨hlaid, -⟩ := laidOut_pieces hs
  have hpieces : s.pieces = (front.flatMap Token.pieces ++ t.trivia.map Trivia.piece) ++
      t.piece :: behind.flatMap Token.pieces := by
    simp [pieces, htoks, Token.pieces]
  rw [hpieces] at hlaid
  have hstart : t.range.start = _ := hlaid.isBehind.start
  rw [hstart, List.nil_append, List.flatMap_append, Token.flatMap_pieces, Trivia.flatMap_piece,
    Text.byteSize_append, Text.byteSize_toList, Text.byteSize_toList]

end TokenStream

/-! ## Leaves that cover tokens -/

namespace Token

/-- A significant leaf among those that cover tokens carries one of them, or a piece of it, behind
the texts of the tokens before this one, of its trivia and of the pieces before. -/
theorem Covers.exists_carried {ts : List Token} {ls front behind : List (Kind × String)}
    {l : Kind × String} (h : Covers ts ls) (hsplit : ls = front ++ l :: behind)
    (hl : l.1.isSignificant = true) : ∃ before t others pieces rest, ts = before ++ t :: others ∧
      t.Carries (pieces ++ l :: rest) ∧ String.join (front.map (·.2)) =
        String.join (before.map fullText) ++ String.join (t.trivia.map (·.text)) ++
          String.join (pieces.map (·.2)) := by
  induction h generalizing front with
  | nil => simp at hsplit
  | @cons t ts group ls hcarries hcovers ih =>
    rcases Text.eq_append_cons_of_append hsplit with ⟨rest, htrivia, -⟩ | ⟨more, rfl, hmore⟩
    · have hmem : l ∈ t.triviaLeaves.filter (·.1.isSignificant) :=
        List.mem_filter.mpr ⟨by rw [htrivia]; simp, hl⟩
      rw [filter_triviaLeaves] at hmem
      cases hmem
    · rcases Text.eq_append_cons_of_append hmore with ⟨rest, rfl, -⟩ | ⟨others, rfl, hothers⟩
      · exact ⟨[], t, ts, _, rest, rfl, hcarries, by simp [String.join_append, String.join_nil]⟩
      · obtain ⟨before, u, others, pieces, rest, rfl, hu, hjoin⟩ := ih hothers
        refine ⟨t :: before, u, others, pieces, rest, rfl, hu, ?_⟩
        simp [String.join_append, String.join_cons, hcarries.join_eq, hjoin, fullText,
          String.append_assoc]

/-- No line breaks in a token that can be cut. -/
theorem keepsLine_of_mem_cuttable {entry : String × Kind} (h : entry ∈ cuttable) :
    ∀ c ∈ entry.1.toList, Text.KeepsLine c := by
  have hall : cuttable.all (fun entry => entry.1.toList.all fun c => decide (Text.KeepsLine c)) =
      true := by decide
  exact Text.keepsLine_of_all (List.all_eq_true.mp hall entry h)

end Token

/-! ## Leaves of a tree -/

namespace Located

variable {l : Located} {t : Token} {text : List Char} {s : TokenStream}

/-- Leaves side by side stop as many bytes behind their start as they have. -/
theorem Run.stop_eq_add {start stop : Nat} {ls : List Located} (h : Run start ls stop)
    (hleaf : ∀ l ∈ ls, l.tree.isNode = false) :
    stop = start + (String.join (ls.map (·.text))).utf8ByteSize := by
  induction h with
  | nil => simp [String.join_nil]
  | @cons start l ls stop hstart _ ih =>
    obtain ⟨hl, hls⟩ := List.forall_mem_cons.mp hleaf
    rw [ih hls, stop_of_leaf hl, List.map_cons, String.join_cons, String.utf8ByteSize_append,
      hstart, Nat.add_assoc]

/-- A leaf starts as many bytes behind the start of a tree as the leaves before it have. -/
theorem start_of_append {n : Located} {front behind : List Located}
    (h : n.leaves = front ++ l :: behind) :
    l.start = n.start + (String.join (front.map (·.text))).utf8ByteSize := by
  have hrun := run_of_leaves n
  rw [h] at hrun
  obtain ⟨mid, hfront, hrest⟩ := hrun.exists_of_append
  rw [← hrest.start_eq]
  refine hfront.stop_eq_add fun l hl => isNode_of_mem_leaves (n := n) ?_
  rw [h]
  exact List.mem_append_left _ hl

/-- A leaf is a token at its place, or a piece of it behind others. -/
def LiesIn (l : Located) (t : Token) : Prop :=
  ∃ pieces rest, t.Carries (pieces ++ l.label :: rest) ∧
    l.start = t.range.start + (String.join (pieces.map (·.2))).utf8ByteSize

/-- The text of a token around a leaf that lies in it.  In front of the leaf no line breaks. -/
theorem LiesIn.exists_text (h : l.LiesIn t) : ∃ front behind : String,
    t.text = front ++ l.text ++ behind ∧ l.start = t.range.start + front.utf8ByteSize ∧
    (front = "" ∨ ∀ c ∈ t.text.toList, Text.KeepsLine c) := by
  obtain ⟨pieces, rest, hcarries, hstart⟩ := h
  refine ⟨_, String.join (rest.map (·.2)), ?_, hstart, ?_⟩
  · rw [← hcarries.join_eq, List.map_append, List.map_cons, String.join_append, String.join_cons,
      ← String.append_assoc]
    rfl
  · generalize hls : pieces ++ l.label :: rest = ls at hcarries
    cases hcarries with
    | whole =>
      left
      cases pieces with
      | nil => rfl
      | cons piece pieces => simp at hls
    | pieces hcut => exact .inr (Token.keepsLine_of_mem_cuttable hcut)

/-- **A leaf that lies in a token of a text stands inside of it, and on its line.** -/
theorem LiesIn.inside (h : l.LiesIn t) (hs : TokenStream.ofText text = .ok s) (ht : t ∈ s.tokens)
    (hne : l.text ≠ "") : t.range.start ≤ l.start ∧ l.start < t.range.stop ∧
      LineIndex.lineOf text l.start = t.position.line := by
  obtain ⟨front, behind, htoken, hstart, hplain⟩ := h.exists_text
  obtain ⟨pre, post, htext, hbehind, hfeed, -⟩ := TokenStream.exists_around hs ht
  obtain ⟨c, cs, hc⟩ := List.exists_cons_of_ne_nil (mt String.toList_eq_nil_iff.mp hne)
  have hchars : t.text.toList = front.toList ++ c :: (cs ++ behind.toList) := by
    rw [htoken, String.toList_append, String.toList_append, hc]
    simp
  have hbegin : t.range.start = Text.byteSize pre := hbehind.start
  have hend : t.range.stop = Text.byteSize pre + Text.byteSize t.text.toList := hbehind.stop
  have hoffset : l.start = Text.byteSize (pre ++ front.toList) := by
    rw [hstart, hbegin, Text.byteSize_append, Text.byteSize_toList]
  refine ⟨by omega, ?_, ?_⟩
  · have hpos := c.utf8Size_pos
    rw [hoffset, hend, hchars, Text.byteSize_append, Text.byteSize_append, Text.byteSize]
    omega
  · have hline : t.position.line = Text.breaks pre + 1 := by
      have hposition : t.position = _ := hbehind.position
      rw [hposition, Cursor.line_advance]
    obtain ⟨hnone, hhead⟩ : Text.breaks front.toList = 0 ∧ c ≠ '\n' := by
      rcases hplain with rfl | hplain
      · refine ⟨rfl, ?_⟩
        rintro rfl
        rw [hchars] at hfeed
        exact hfeed rfl
      · rw [hchars] at hplain
        have hbreaks := Text.breaks_append_of_keepsLine
          (fun d hd => hplain d (List.mem_append_left _ hd)) []
        rw [List.append_nil] at hbreaks
        exact ⟨hbreaks, (hplain c (by simp)).1⟩
    have hcut : ¬ Text.SplitsBreak pre t.text.toList := fun hsplit =>
      hfeed (by rw [List.head?_append, hsplit.2, Option.some_or])
    rw [hchars] at htext hcut
    rw [htext, hoffset, Text.lineOf_inside hcut hhead, hnone, hline]

end Located

namespace Parse

variable {text : List Char} {s : TokenStream} {p : Parse}

/-- The leaves of a tree cover the tokens of its stream, and behind them stand the end of the text
and its trivia. -/
def IsCovered (p : Parse) : Prop := ∃ ts eof ls, p.stream.tokens.toList = ts ++ [eof] ∧
  Token.Covers ts ls ∧ p.tree.leaves = ls ++ (eof.triviaLeaves ++ [(.eof, eof.text)])

/-- A tree over the tokens of a text covers them, if its root is matched up to the end of the
text. -/
theorem run_covers (hs : TokenStream.ofText text = .ok s) {root : Term}
    (hroot : ∀ g, ∀ t ∈ root.parts, Language.isPlain g t = true)
    (hclosed : ∀ m : Machine, Language.grammar = .ok m.grammar → ∀ ns stop,
      Parses m {} (.term root) {} (some (ns, stop)) → m.kindAt stop = .eof)
    {options : ParseOptions} {memo : Memo} (h : (run root options s memo).1 = .ok p) :
    p.IsCovered := by
  obtain ⟨m, ns, stop, stats, hg, htokens, hparses, htiles, rfl⟩ := exists_build hs hroot h
  obtain ⟨ts, eof, htoks, -, -, -, hcovers, hdone⟩ :=
    Machine.exists_covers hs htokens htiles (hclosed m hg ns stop hparses)
  refine ⟨ts, eof, _, htoks, hcovers, ?_⟩
  rw [Tree.leaves_build htoks .sourceFile hdone, List.append_assoc]

/-- **Each significant leaf of a tree lies in a token.** -/
theorem exists_token_of_leaf (hs : TokenStream.ofText text = .ok p.stream) (h : p.IsCovered)
    {l : Located} (hl : l ∈ p.root.leaves) (hkind : l.kind.isSignificant = true) :
    ∃ t ∈ p.stream.tokens, t.kind ≠ .eof ∧ l.LiesIn t := by
  obtain ⟨ts, eof, ls, htoks, hcovers, hleaves⟩ := h
  obtain ⟨front, behind, hsplit⟩ := List.append_of_mem hl
  have hlabels := Located.map_label_leaves p.root
  rw [hsplit, show p.root.tree.leaves = _ from hleaves, List.map_append, List.map_cons] at hlabels
  -- behind the leaves that cover the tokens there are no significant ones
  rcases Text.eq_append_cons_of_append hlabels.symm with ⟨rest, hls, -⟩ | ⟨more, -, hmore⟩
  · obtain ⟨before, t, others, pieces, rest, rfl, hcarries, hjoin⟩ :=
      hcovers.exists_carried hls hkind
    have htoks' : p.stream.tokens.toList = before ++ t :: (others ++ [eof]) := by
      rw [htoks, List.append_assoc, List.cons_append]
    have hstart : l.start = 0 + (String.join (front.map (·.text))).utf8ByteSize :=
      Located.start_of_append hsplit
    have hmem : t ∈ p.stream.tokens := by
      rw [← Array.mem_toList_iff, htoks']
      simp
    refine ⟨t, hmem, hcovers.token_ne_eof t (by simp), pieces, rest, hcarries, ?_⟩
    rw [List.map_map] at hjoin
    rw [hstart, TokenStream.start_of_append hs htoks', Nat.zero_add,
      show front.map (·.text) = front.map ((·.2) ∘ Located.label) from rfl, hjoin,
      String.utf8ByteSize_append, String.utf8ByteSize_append]
  · have hmem : l.label ∈ eof.triviaLeaves ++ [(.eof, eof.text)] := by
      rw [hmore]
      simp
    rcases List.mem_append.mp hmem with hmem | hmem
    · have hshown : l.label ∈ eof.triviaLeaves.filter (·.1.isSignificant) :=
        List.mem_filter.mpr ⟨hmem, hkind⟩
      rw [Token.filter_triviaLeaves] at hshown
      cases hshown
    · have heof : l.kind = .eof := congrArg Prod.fst (List.mem_singleton.mp hmem)
      rw [heof] at hkind
      cases hkind

end Parse
end Packrat
