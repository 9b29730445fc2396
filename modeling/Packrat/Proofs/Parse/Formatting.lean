/-
# Formatting does not show

Two streams may have the same tokens in different clothes: other comments and whitespace around
them, and so other ranges and positions (`TokenStream.Agrees`).  Rules see the kinds and texts of
tokens alone, so the two runs are one run.  It is afterwards that the streams are looked at again:
to build the tree, whose nodes trivia move in and out of, and to tell where a syntax error is.
Neither tells more of the difference than it must (`Parse.Alike`):

| a parse ends with | the other parse has the same |
| --- | --- |
| a tree | tree without trivia, steps and number of entries |
| a syntax error | expected names, found text, size, context and code |
| another error | error |

Streams of texts always come to one of the three, with whatever tables
(`Parse.formatting_does_not_show`).
-/

import Packrat.Proofs.Parse.Tables
import Packrat.Proofs.Token.Position
import Packrat.Proofs.Tree.Plain

namespace Packrat

open Peg

/-- The tokens of two streams have, one by one, the same kinds and texts. -/
def TokenStream.Agrees (s s' : TokenStream) : Prop :=
  List.Forall₂ (fun t t' : Token => t'.kind = t.kind ∧ t'.text = t.text)
    s.tokens.toList s'.tokens.toList

/-- Streams agree when rules see the same of them. -/
theorem TokenStream.agrees_iff {s s' : TokenStream} : s.Agrees s' ↔ s'.symbols = s.symbols := by
  have hsymbol : ∀ t t' : Token, t.symbol = t'.symbol ↔ t'.kind = t.kind ∧ t'.text = t.text := by
    intro t t'
    rw [Token.symbol, Token.symbol, Symbol.mk.injEq, eq_comm, @eq_comm _ t.text]
  rw [eq_comm, symbols_eq, symbols_eq, ← Array.toList_inj, Array.toList_map, Array.toList_map,
    ← List.forall₂_eq_eq_eq, List.forall₂_map_left_iff, List.forall₂_map_right_iff]
  simp only [hsymbol]
  rfl

/-- Two syntax errors differ in their places alone. -/
structure SyntaxError.SaysSame (e e' : SyntaxError) : Prop where
  expected : e'.expected = e.expected
  found : e'.found = e.found
  size : e'.size = e.size
  context : e'.context = e.context
  code : e'.code = e.code

/-- The place of a syntax error decides nothing else. -/
theorem SyntaxError.of_saysSame (position position' : Position) (offset offset' size : Nat)
    (found : Option String) (expected : List Expected) (context : Context) :
    (of position offset size found expected context).SaysSame
      (of position' offset' size found expected context) := ⟨rfl, rfl, rfl, rfl, rfl⟩

namespace Parse

/-- Two parses come to the same, formatting apart. -/
inductive Alike : Except Error Parse → Except Error Parse → Prop where
  | tree {p p' : Parse} : p'.tree.withoutTrivia = p.tree.withoutTrivia → p'.stats = p.stats →
    Alike (.ok p) (.ok p')
  | syntaxError {e e' : SyntaxError} : e.SaysSame e' →
    Alike (.error (.parse (.syntaxError e))) (.error (.parse (.syntaxError e')))
  | other {e : Error} : e.isSyntax = false → Alike (.error e) (.error e)

/-- One parse returns if the other does. -/
theorem Alike.returns {r r' : Except Error Parse} (h : Alike r r') (hr : Returns r) :
    Returns r' := by
  cases h with
  | tree => exact .inl ⟨_, rfl⟩
  | syntaxError => exact .inr (.inr ⟨_, rfl⟩)
  | other => exact hr

variable {s s' : TokenStream}

/-- The syntax errors of a failure differ in their places alone. -/
theorem syntaxError_saysSame (h : s'.symbols = s.symbols) (f : Failure) :
    (syntaxError s f).SaysSame (syntaxError s' f) := by
  have hsize : s'.size = s.size := Tree.size_of_symbols h
  have hsymbol : s'.tokens[min f.pos.index (s.size - 1)]?.map Token.symbol =
      s.tokens[min f.pos.index (s.size - 1)]?.map Token.symbol := by
    rw [← Array.getElem?_map, ← Array.getElem?_map, ← TokenStream.symbols_eq, h]
    rfl
  cases ht : s.tokens[min f.pos.index (s.size - 1)]? with
  | none =>
    rw [ht, Option.map_none, Option.map_eq_none_iff] at hsymbol
    simp only [syntaxError, hsize, ht, hsymbol]
    exact SyntaxError.of_saysSame ..
  | some t =>
    rw [ht, Option.map_some] at hsymbol
    obtain ⟨t', ht', hsame⟩ := Option.map_eq_some_iff.mp hsymbol
    have hkind : t'.kind = t.kind := congrArg Symbol.kind hsame
    have htext : t'.text = t.text := congrArg Symbol.text hsame
    simp only [syntaxError, hsize, ht, ht', hkind, htext]
    exact SyntaxError.of_saysSame ..

/-- What a run comes to over streams that agree. -/
theorem answer_alike (h : s'.symbols = s.symbols) (r : Machine.Run) :
    Alike (answer s r) (answer s' r) := by
  unfold answer
  split
  · next matched _ _ => exact .tree (Tree.withoutTrivia_build h .sourceFile matched) rfl
  · exact .other rfl
  · exact .other rfl
  · next f _ => exact .syntaxError (syntaxError_saysSame h f)

/-- **A run does not see more of a stream than the rules do**, whatever the grammar. -/
theorem runWith_alike (h : s'.symbols = s.symbols) (grammar : Except GrammarError Grammar)
    (root : Term) (options : ParseOptions) (memo : Memo) :
    Alike (runWith grammar root options s memo).1 (runWith grammar root options s' memo).1 ∧
      (runWith grammar root options s' memo).2 = (runWith grammar root options s memo).2 := by
  cases grammar with
  | error e => exact ⟨.other rfl, rfl⟩
  | ok g =>
    simp only [runWith, h]
    split
    · exact ⟨.other rfl, rfl⟩
    · exact ⟨answer_alike h _, rfl⟩

/-- **Comments and whitespace do not show.**  Parses of two streams that agree come to the same,
formatting apart, with any options and any table, and leave the same in the table.  If one of the
streams is that of a text, both parses return, and the tables need not be the same. -/
theorem formatting_does_not_show (h : s.Agrees s') (options : ParseOptions) :
    (∀ memo, Alike (ofStream options s memo).1 (ofStream options s' memo).1 ∧
      (ofStream options s' memo).2 = (ofStream options s memo).2) ∧
    ∀ text, TokenStream.ofText text = .ok s → ∀ memo memo',
      Returns (ofStream options s memo).1 ∧ Returns (ofStream options s' memo').1 ∧
        Alike (ofStream options s memo).1 (ofStream options s' memo').1 := by
  have hsymbols := TokenStream.agrees_iff.mp h
  have hsame : ∀ memo, Alike (ofStream options s memo).1 (ofStream options s' memo).1 ∧
      (ofStream options s' memo).2 = (ofStream options s memo).2 := by
    intro memo
    rw [ofStream, ofStream, run, run]
    exact runWith_alike hsymbols _ _ options memo
  refine ⟨hsame, fun text hs memo memo' => ?_⟩
  have hreturns : Returns (ofStream options s memo).1 :=
    run_returns hs (fun g => Language.isPlain_rule _) options memo
  -- over the stream of a text, the table does not show either
  have htable : (ofStream options s memo).1 = (ofStream options s memo').1 := by
    rw [(ofStream_of_table hs options memo).1, (ofStream_of_table hs options memo').1]
  have halike : Alike (ofStream options s memo).1 (ofStream options s' memo').1 := by
    rw [htable]
    exact (hsame memo').1
  exact ⟨hreturns, halike.returns hreturns, halike⟩

/-- A constant on one line. -/
def denseText : List Char := "const A: B = a&&b;".toList

/-- The same on many lines, with comments. -/
def looseText : List Char := "//! c\r\nconst A : B\n\t= a /* && */ && b\r;\n".toList

/-- The condition can be met by different streams. -/
theorem formatting_does_not_show_loose : ∃ s s', TokenStream.ofText denseText = .ok s ∧
    TokenStream.ofText looseText = .ok s' ∧ s.Agrees s' ∧ s.trivia.length < s'.trivia.length ∧
      Returns (ofStream {} s {}).1 ∧ Returns (ofStream {} s' {}).1 ∧
        Alike (ofStream {} s {}).1 (ofStream {} s' {}).1 := by
  obtain ⟨s, hs, hany⟩ := TokenStream.exists_of_any denseText (fun s =>
    (TokenStream.ofText looseText).toOption.any fun s' =>
      s'.symbols = s.symbols ∧ s.trivia.length < s'.trivia.length) (by decide +kernel)
  obtain ⟨s', hs', hboth⟩ := TokenStream.exists_of_any looseText _ hany
  obtain ⟨hsymbols, htrivia⟩ := of_decide_eq_true hboth
  have hagrees := TokenStream.agrees_iff.mpr hsymbols
  exact ⟨s, s', hs, hs', hagrees, htrivia,
    (formatting_does_not_show hagrees {}).2 denseText hs {} {}⟩

end Parse
end Packrat
