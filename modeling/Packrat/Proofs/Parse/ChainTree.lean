/-
# Texts and trees of chains

The text of a chain is one of words with spaces between them, so its tokens can be written
down (`Chain.ofText_text`): those that the ladder reads.  The tree that is built of what it
matches is the tree over the chain, with a space in front of each operator and of what is behind
it (`Expr.toTree`).
-/

import Packrat.Parse
import Packrat.Proofs.Language.Climb
import Packrat.Proofs.Token.Spaced
import Packrat.Proofs.Tree.Build

namespace Packrat
namespace Language

open Peg

/-! ## Tokens -/

/-- The words of a chain behind its first integer. -/
def wordsBehind (rest : List (BinaryOp × Integer)) : List (Kind × List Char) :=
  rest.flatMap fun link => [(link.1.kind, link.1.word), (.intNumber, link.2.word)]

theorem wordsBehind_append (rest rest' : List (BinaryOp × Integer)) :
    wordsBehind (rest ++ rest') = wordsBehind rest ++ wordsBehind rest' := List.flatMap_append

theorem length_wordsBehind (rest : List (BinaryOp × Integer)) :
    (wordsBehind rest).length = 2 * rest.length := by
  induction rest with
  | nil => rfl
  | cons link rest ih =>
    rw [wordsBehind, List.flatMap_cons, List.length_append, ← wordsBehind, ih, List.length_cons,
      List.length_cons, List.length_cons, List.length_nil]
    omega

/-- An operator between spaces is a token of its own. -/
theorem BinaryOp.isWord (op : BinaryOp) : Lexeme.IsWord op.kind op.word := by
  have hall : ∀ level ∈ levels, ∀ kind ∈ level.operators,
      Lexeme.isOperatorWord kind (kind.spelling?.getD "").toList = true := by decide
  obtain ⟨level, hlevel, hmem⟩ := op.kind_mem
  exact Lexeme.isWord_of_isOperatorWord (hall level (List.mem_of_getElem? hlevel) op.kind hmem)

theorem BinaryOp.ofKind?_eq_none (op : BinaryOp) : TriviaKind.ofKind? op.kind = none := by
  have hall : ∀ level ∈ levels, ∀ kind ∈ level.operators, TriviaKind.ofKind? kind = none := by
    decide
  obtain ⟨level, hlevel, hmem⟩ := op.kind_mem
  exact hall level (List.mem_of_getElem? hlevel) op.kind hmem

/-- Behind some words are the others. -/
theorem drop_spacedTokens (words words' : List (Kind × List Char)) : ∀ before,
    (TokenStream.spacedTokens before (words ++ words')).drop words.length =
      TokenStream.spacedTokens (before ++ TokenStream.spacedText words) words' := by
  induction words with
  | nil =>
    intro before
    simp [TokenStream.spacedText]
  | cons w words ih =>
    intro before
    have hrest := ih (before ++ ' ' :: w.2)
    rw [List.append_assoc] at hrest
    exact hrest

/-- Behind a part of a chain are the tokens of the rest. -/
theorem drop_wordsBehind (links left : List (BinaryOp × Integer)) (before : List Char) :
    (TokenStream.spacedTokens before (wordsBehind (links ++ left))).drop (2 * links.length) =
      TokenStream.spacedTokens (before ++ TokenStream.spacedText (wordsBehind links))
        (wordsBehind left) := by
  rw [wordsBehind_append, ← length_wordsBehind, drop_spacedTokens]

namespace Chain

/-- The token of the first integer. -/
def firstToken (c : Chain) : Token :=
  ⟨.intNumber, String.ofList c.first.word, ⟨0, Text.byteSize c.first.word⟩, {}, []⟩

/-- The tokens of a chain. -/
def stream (c : Chain) : TokenStream :=
  ⟨(c.firstToken :: TokenStream.spacedTokens c.first.word (wordsBehind c.rest)).toArray⟩

theorem text_eq (c : Chain) :
    c.text = c.first.word ++ TokenStream.spacedText (wordsBehind c.rest) := by
  simp [text, TokenStream.spacedText, wordsBehind, List.flatMap_assoc]

/-- **The tokens of a chain's text** are its integers and operators. -/
theorem ofText_text (c : Chain) : TokenStream.ofText c.text = .ok c.stream := by
  have hwords : ∀ w ∈ (Kind.intNumber, c.first.word) :: wordsBehind c.rest,
      Lexeme.IsWord w.1 w.2 ∧ TriviaKind.ofKind? w.1 = none := by
    intro w hw
    rcases List.mem_cons.mp hw with rfl | hw
    · exact ⟨c.first.isInteger.isWord, rfl⟩
    · obtain ⟨link, -, hw⟩ := List.mem_flatMap.mp hw
      rcases List.mem_cons.mp hw with rfl | hw
      · exact ⟨link.1.isWord, link.1.ofKind?_eq_none⟩
      · obtain rfl := List.mem_singleton.mp hw
        exact ⟨link.2.isInteger.isWord, rfl⟩
  have hfirst : c.first.word.head? ≠ some '#' := by
    obtain ⟨d, ds, hword, hdigit, -⟩ := c.first.isInteger
    rw [hword]
    rintro ⟨⟩
    cases hdigit
  rw [text_eq]
  exact TokenStream.ofText_words hwords hfirst

/-- What the rules see of the words behind an integer. -/
theorem symbols_spacedTokens (rest : List (BinaryOp × Integer)) : ∀ before,
    (TokenStream.spacedTokens before (wordsBehind rest)).map Token.symbol = symbolsBehind rest := by
  induction rest with
  | nil => exact fun _ => rfl
  | cons link rest ih =>
    intro before
    have hrest := ih ((before ++ ' ' :: link.1.word) ++ ' ' :: link.2.word)
    simp only [symbolsBehind, ← hrest]
    rfl

/-- Where the ladder stops in a chain, the rest of it begins, behind the text of the part. -/
theorem drop_stream {c : Chain} (links left : List (BinaryOp × Integer))
    (h : c.rest = links ++ left) : c.stream.tokens.toList.drop (2 * links.length + 1) =
      TokenStream.spacedTokens (text ⟨c.first, links⟩) (wordsBehind left) := by
  rw [stream, List.drop_succ_cons, h, drop_wordsBehind, text_eq]

/-- A machine over the tokens of a chain is at its beginning. -/
theorem isAt_stream (c : Chain) {m : Machine} (htokens : m.tokens = c.stream.symbols) :
    m.IsAt 0 c.first c.rest := by
  rw [Machine.IsAt, htokens, List.drop_zero, TokenStream.symbols, Array.toList_map]
  exact congrArg _ (symbols_spacedTokens c.rest c.first.word)

end Chain

/-! ## Trees -/

namespace Expr

/-- The tree of an expression, spaces included. -/
def toTree : Expr → Tree
  | literal x => .node .literal [.token .intNumber (String.ofList x.word)]
  | binary op l r => .node .binExpr [l.toTree, .token .whitespace " ",
    .token op.kind (String.ofList op.word), .token .whitespace " ", r.toTree]

variable {tokens : Array Token} {i : Nat} {t : Token}

theorem firstPos?_toMatch (e : Expr) (i : Nat) : (e.toMatch i).firstPos? = some ⟨i, 0⟩ := by
  induction e generalizing i with
  | literal x => rfl
  | binary op l r ihl _ =>
    rw [toMatch, Match.firstPos?, Match.firstPosOf?, ihl]
    rfl

/-- The trivia of the first token stand before the tree. -/
theorem ofMatch_toMatch_first (e : Expr) (ht : tokens[i]? = some t) :
    Tree.ofMatch tokens i (e.toMatch i) =
      (t.trivia.map Tree.ofTrivia ++ (Tree.ofMatch tokens (i + 1) (e.toMatch i)).1,
        (Tree.ofMatch tokens (i + 1) (e.toMatch i)).2) := by
  have hself := Tree.triviaUpTo_self ht
  have hagain := Tree.triviaUpTo_again tokens i i
  rw [hself] at hagain
  have hfirst := e.firstPos?_toMatch i
  cases e with
  | literal x =>
    simp only [toMatch, Match.firstPos?] at hfirst ⊢
    simp only [Tree.ofMatch, hfirst, hself, hagain, List.nil_append]
  | binary op l r =>
    simp only [toMatch, Match.firstPos?] at hfirst ⊢
    simp only [Tree.ofMatch, hfirst, hself, hagain, List.nil_append]

/-- **What the ladder matches is built into the tree over the chain.** -/
theorem ofMatch_toMatch (e : Expr) : ∀ {i t before} (left : List (BinaryOp × Integer)),
    tokens.toList.drop i =
      t :: TokenStream.spacedTokens before (wordsBehind (e.links ++ left)) →
    t.text = String.ofList e.first.word →
    Tree.ofMatch tokens (i + 1) (e.toMatch i) = ([e.toTree], i + e.width) := by
  induction e with
  | literal x =>
    intro i t before left hdrop htext
    have ht := (getElem?_of_drop hdrop).1
    have hagain := Tree.triviaUpTo_again tokens i i
    rw [Tree.triviaUpTo_self ht] at hagain
    have htext' : t.text = String.ofList x.word := htext
    simp [toMatch, Tree.ofMatch, Tree.ofMatches, Match.firstPosOf?, Match.firstPos?, hagain, ht,
      htext', Tree.textOfPart, toTree, width, links]
  | binary op l r ihl ihr =>
    intro i t before left hdrop htext
    have ht := (getElem?_of_drop hdrop).1
    have hagain := Tree.triviaUpTo_again tokens i i
    rw [Tree.triviaUpTo_self ht] at hagain
    have hfirst := (binary op l r).firstPos?_toMatch i
    rw [links, List.append_assoc] at hdrop
    have hl := ihl _ hdrop htext
    -- behind the left operand are the operator and the right one
    have hbehind : tokens.toList.drop (i + l.width) = TokenStream.spacedTokens
        (before ++ TokenStream.spacedText (wordsBehind l.links))
        (wordsBehind ((op, r.first) :: r.links ++ left)) := by
      rw [← drop_wordsBehind, ← (getElem?_of_drop hdrop).2, List.drop_drop, width]
      congr 1
      omega
    obtain ⟨hop, hdrop'⟩ := getElem?_of_drop hbehind
    have hr := ihr left hdrop' rfl
    have hr' := r.ofMatch_toMatch_first (getElem?_of_drop hdrop').1
    rw [hr] at hr'
    simp only [toMatch, Match.firstPos?] at hfirst ⊢
    rw [Tree.ofMatch, hfirst]
    simp only [hagain, Tree.ofMatches, hl, Tree.ofMatch, hop, Tree.triviaUpTo_self hop, hr']
    have hwidth : i + l.width + 1 + r.width = i + (binary op l r).width := by
      rw [width_binary]
      omega
    have hspace : TriviaKind.whitespace.kind = .whitespace := rfl
    simp [toTree, TokenStream.spacedToken, Tree.ofTrivia, Tree.textOfPart, hwidth, hspace]

/-- The tree over a whole chain, and the end of the text. -/
theorem build_toMatch {c : Chain} {e : Expr} (hfirst : e.first = c.first)
    (hlinks : e.links = c.rest) : Tree.build c.stream .sourceFile [e.toMatch 0] =
      .node .sourceFile [e.toTree, .token .eof ""] := by
  have hdrop : c.stream.tokens.toList.drop 0 = c.firstToken ::
      TokenStream.spacedTokens c.first.word (wordsBehind (e.links ++ [])) := by
    rw [List.append_nil, hlinks]
    rfl
  have hmatch := e.ofMatch_toMatch [] hdrop (by rw [hfirst]; rfl)
  have hwhole := e.ofMatch_toMatch_first (getElem?_of_drop hdrop).1
  rw [hmatch, Nat.zero_add] at hwhole
  -- behind the tree is the end of the text
  have hend := Chain.drop_stream (c := c) e.links [] (by simp [hlinks])
  obtain ⟨heof, hnone⟩ := getElem?_of_drop hend
  have hsize : c.stream.tokens.size = e.width + 1 := by
    have hle := List.drop_eq_nil_iff.mp hnone
    have hlt := (Array.getElem?_eq_some_iff.mp heof).1
    rw [Array.length_toList] at hle
    rw [width]
    omega
  have hback := heof
  rw [← width, show e.width = c.stream.tokens.size - 1 by omega, ← Array.back?_eq_getElem?] at hback
  have hself := Tree.triviaUpTo_self heof
  rw [← width] at hself
  simp only [Tree.build, Tree.ofMatches, hwhole, hback, hsize, Nat.add_sub_cancel, hself]
  simp [Chain.firstToken]

end Expr
end Language
end Packrat
