/-
# Nested brackets and ampersands, parsed

A lexer knows nothing of nesting: it puts as many brackets or ampersands into one token as it can.
The rules cut them apart again.  So however deep types or references are nested, and whatever stands
behind them, they have their trees (`Parse.parsing_nested`):

| text | tree |
| --- | --- |
| `A<` again and again, `u8`, and as many `>` | a type with lists of arguments nested that deep |
| the same with `let v: ` in front of it and `= x;` right behind | a statement with the same type |
| `&` again and again and an identifier | references nested that deep |

The trees are given without their trivia, which are the spaces of the statement.
-/

import Packrat.Proofs.Language.Glued
import Packrat.Proofs.Parse.Computed

namespace Packrat
namespace Parse

open Peg Packrat.Language Lexeme Token

/-! ## From tokens to trees -/

/-- A text whose tokens are read as one tree up to the end of the text. -/
theorem exists_of_reads {entry : Entry} {text : List Char} {symbols : List Symbol} {t : Tree}
    (hcut : CutsInto text symbols) (hplain : text.head? ≠ some '#')
    (h : ∀ m : Machine, Language.grammar = .ok m.grammar →
      m.tokens.toList = symbols ++ [⟨.eof, ""⟩] → ∃ n stop,
        Parses m {} (.term (.rule entry.ruleName)) {} (some ([n], stop)) ∧
          m.kindAt stop = .eof ∧ Tree.bare? m.tokens n = some t) :
    ∃ p, ofEntry entry text unlimited = .ok p ∧
      p.tree.withoutTrivia = .node .sourceFile [t, .token .eof ""] := by
  obtain ⟨g, hg⟩ := Language.exists_grammar
  obtain ⟨s, hs, hsymbols⟩ := TokenStream.exists_of_cutsInto hcut hplain
  have htokens : (machine g s unlimited).tokens.toList = symbols ++ [⟨.eof, ""⟩] := by
    rw [← hsymbols]
    exact Array.toList_map
  obtain ⟨n, stop, hparses, hend, hbare⟩ := h (machine g s unlimited) hg htokens
  have hended : Parses (machine g s unlimited) {} (.term .ended) stop (some ([], stop)) := by
    have hread : (machine g s unlimited).read? stop .ended = some ([], stop) := if_pos hend
    exact hread ▸ .terminal rfl
  have hroot := Parses.seq_cons hparses (.seq_cons hended .seq_nil)
  obtain ⟨table, r, -, -, hanswer, ha⟩ := run_of_parses hg hs
    (fun g => isPlain_rule_ended entry.ruleName) hroot
  obtain ⟨stats, hok⟩ := answer_eq_ok (s := s) ha
  have hall : Tree.bareAll? (machine g s unlimited).tokens [n] = some [t] := by
    rw [Tree.bareAll?, hbare]
    rfl
  exact ⟨_, (bind_stream hs _).trans (hanswer.trans hok),
    Tree.withoutTrivia_build_bare hall hsymbols .sourceFile⟩

/-! ## Texts -/

/-- A type with lists of arguments nested `n` deep, and brackets side by side. -/
def nested (n : Nat) : List Char :=
  (List.replicate n ['A', '<']).flatten ++ ('u' :: '8' :: List.replicate n '>')

example : nested 3 = "A<A<A<u8>>>".toList := rfl

/-- A nested type before an equals sign or not. -/
theorem cutsInto_nested (before : Bool) {rest : List Char} {symbols : List Symbol}
    (hgap : IsGap rest) (hbefore : before = false → rest = [])
    (hrest : CutsInto rest symbols) (n : Nat) :
    CutsInto (nested n ++ ((if before then ['='] else []) ++ rest))
      (openers n ++ (closers before n ++ symbols)) := by
  have hend : IsBehindName
      (List.replicate n '>' ++ ((if before then ['='] else []) ++ rest)) := by
    cases n with
    | succ n => exact .inr ⟨_, .inl rfl⟩
    | zero =>
      cases before with
      | false => exact .inl (hbefore rfl)
      | true => exact .inr ⟨_, .inr rfl⟩
  have hcut := cutsInto_openers hend (cutsInto_closers before hgap hrest n) n
  rw [nested, List.append_assoc]
  exact hcut

/-- A nested type begins with a name. -/
theorem exists_nested (n : Nat) : ∃ c cs, nested n = c :: cs ∧ isSpace c = false ∧ c ≠ '#' := by
  cases n with
  | zero => exact ⟨'u', _, rfl, rfl, by decide⟩
  | succ n => exact ⟨'A', _, rfl, rfl, by decide⟩

/-- A statement with a nested type, which stands right before the equals sign. -/
theorem cutsInto_binding (n : Nat) :
    CutsInto ("let v: ".toList ++ nested n ++ "= x;".toList)
      (⟨.letKw, "let"⟩ :: ⟨.ident, "v"⟩ :: ⟨.colon, ":"⟩ ::
        (openers n ++ (closers true n ++ [⟨.ident, "x"⟩, ⟨.semicolon, ";"⟩]))) := by
  have hend : CutsInto [';'] [⟨.semicolon, ";"⟩] :=
    .token rfl (c := ';') (w := []) (fun _ => rfl) .nil
  have hvalue : CutsInto [' ', 'x', ';'] [⟨.ident, "x"⟩, ⟨.semicolon, ";"⟩] :=
    .space rfl (.token rfl (c := 'x') (w := []) (fun _ => rfl) hend)
  have htype := cutsInto_nested true (.inr ⟨_, rfl⟩) (by simp) hvalue n
  obtain ⟨c, cs, hnested, hspace, -⟩ := exists_nested n
  have htext : "let v: ".toList ++ nested n ++ "= x;".toList =
      'l' :: 'e' :: 't' :: ' ' :: 'v' :: ':' :: ' ' :: c :: (cs ++ "= x;".toList) := by
    rw [hnested]
    rfl
  generalize openers n ++ (closers true n ++ _) = symbols at htype ⊢
  rw [hnested] at htype
  have hcolon : CutsInto (':' :: ' ' :: c :: (cs ++ "= x;".toList)) (⟨.colon, ":"⟩ :: symbols) :=
    .token rfl (c := ':') (w := []) (fun _ => rfl) (.space hspace htype)
  have hname : CutsInto ('v' :: ':' :: ' ' :: c :: (cs ++ "= x;".toList))
      (⟨.ident, "v"⟩ :: ⟨.colon, ":"⟩ :: symbols) :=
    .token rfl (c := 'v') (w := []) (fun _ => rfl) hcolon
  exact htext ▸ .token rfl (c := 'l') (w := ['e', 't']) (fun _ => rfl) (.space rfl hname)

/-! ## Types, statements and references -/

/-- A nested type is a type. -/
theorem ofEntry_nested (n : Nat) : ∃ p, ofEntry .type (nested n) unlimited = .ok p ∧
    p.tree.withoutTrivia = .node .sourceFile [nestedTree n, .token .eof ""] := by
  have hcut := cutsInto_nested false (.inl rfl) (fun _ => rfl) .nil n
  obtain ⟨c, cs, hnested, -, hplain⟩ := exists_nested n
  simp only [Bool.false_eq_true, if_false, List.append_nil] at hcut
  refine exists_of_reads hcut (by simp [hnested, hplain]) fun m hg htokens => ?_
  rw [List.append_assoc] at htokens
  have hdrop : m.tokens.toList.drop 0 = _ := htokens
  have heof := (getElem?_of_drop (Machine.drop_nested hdrop)).1
  have hquiet := (Machine.shows_eof heof).isQuiet (by decide) (by decide)
  obtain ⟨t, stop, htype, hbare, rfl⟩ := Machine.exists_nestedType hg hdrop rfl (fun _ => hquiet)
  exact ⟨t, _, htype, Machine.kindAt_of_getElem? heof, hbare⟩

/-- A nested type stands in a statement, though an equals sign is put to its brackets. -/
theorem ofEntry_binding (n : Nat) :
    ∃ p, ofEntry .letStatement ("let v: ".toList ++ nested n ++ "= x;".toList) unlimited = .ok p ∧
      p.tree.withoutTrivia = .node .sourceFile [bindingTree (nestedTree n), .token .eof ""] := by
  refine exists_of_reads (cutsInto_binding n) (by simp) fun m hg htokens => ?_
  simp only [List.cons_append, List.append_assoc, List.nil_append] at htokens
  obtain ⟨hlet, hdrop⟩ := getElem?_of_drop (i := 0) htokens
  obtain ⟨hname, hdrop⟩ := getElem?_of_drop hdrop
  obtain ⟨hcolon, hdrop⟩ := getElem?_of_drop hdrop
  have hbinding : m.tokens.toList.drop 3 = openers n ++ (closers true n ++ _) := hdrop
  obtain ⟨t, stop, htype, hbare, l, heq⟩ :=
    Machine.exists_nestedType hg hbinding rfl (by rintro ⟨⟩)
  have hbehind := Machine.drop_nested hdrop
  obtain ⟨hvalue, hbehind⟩ := getElem?_of_drop hbehind
  obtain ⟨hsemicolon, hbehind⟩ := getElem?_of_drop hbehind
  have hfirst : m.kindAt ⟨3, 0⟩ = .ident := by
    cases n <;> exact Machine.kindAt_of_getElem? (getElem?_of_drop hdrop).1
  obtain ⟨hparses, htree⟩ := Machine.parses_binding hg hlet hname hcolon hfirst htype heq hvalue
    hsemicolon
  exact ⟨_, _, hparses, Machine.kindAt_of_getElem? (getElem?_of_drop hbehind).1, htree _ hbare⟩

/-- Ampersands before an identifier are references, each to the next one. -/
theorem ofEntry_ampersands (n : Nat) {kind : Kind} {word : List Char}
    (hword : IsIdentifier kind word) :
    ∃ p, ofEntry .expression (List.replicate n '&' ++ word) unlimited = .ok p ∧
      p.tree.withoutTrivia = .node .sourceFile
        [referenceTree (namedTree kind (String.ofList word)) n, .token .eof ""] := by
  obtain ⟨c, cs, rfl⟩ : ∃ c cs, word = c :: cs := by
    obtain ⟨-, before, c, cs, -, hcs⟩ := hword
    exact ⟨c, _, hcs⟩
  obtain ⟨-, hbracket, heq, hhash⟩ := hword.head
  have hamp : c ≠ '&' := by
    rintro rfl
    cases hbracket
  have hplain : (List.replicate n '&' ++ c :: cs).head? ≠ some '#' := by
    cases n with
    | zero =>
      rintro ⟨⟩
      exact hhash rfl
    | succ n => simp [List.replicate_succ]
  have hcut := cutsInto_ampersands hamp heq hword.cutsInto n
  refine exists_of_reads hcut hplain fun m hg htokens => ?_
  rw [List.append_assoc] at htokens
  obtain ⟨ls, hamps, rfl⟩ := Machine.exists_ampersands n 0 _ htokens
  rw [Nat.zero_add] at hamps
  have hbehind : m.tokens.toList.drop (ampersands ls.length).length =
      [⟨kind, String.ofList (c :: cs)⟩, ⟨.eof, ""⟩] := by
    rw [htokens, List.drop_left]
    rfl
  obtain ⟨hname, hbehind⟩ := getElem?_of_drop hbehind
  have heof := (getElem?_of_drop hbehind).1
  have hquiet := (Machine.shows_eof heof).isQuiet (by decide) (by decide)
  obtain ⟨name, hmem, hshows⟩ := Machine.exists_identifier hword hname
  have hoperand := Machine.parses_references hg hmem hshows hquiet hamps rfl
  have hfirst : kind ∈ first.kinds := by rcases hword.1 with rfl | rfl <;> decide
  have hparses := Machine.parses_onlyOperand hg
    (hamps.kindAt (Machine.kindAt_of_getElem? hname ▸ hfirst)) heof hoperand
  have hbare := Machine.bare?_namedExpr hword hname
  exact ⟨_, _, hparses, Machine.kindAt_of_getElem? heof, Machine.bare?_referenced hamps hbare⟩

/-- **Punctuators put together are cut apart at any depth of nesting.**  Types with lists of
arguments nested `n` deep are types, also in a statement where an equals sign is right behind their
brackets, and `n` ampersands before an identifier are `n` references. -/
theorem parsing_nested (n : Nat) :
    (∃ p, ofEntry .type (nested n) unlimited = .ok p ∧
      p.tree.withoutTrivia = .node .sourceFile [nestedTree n, .token .eof ""]) ∧
    (∃ p, ofEntry .letStatement ("let v: ".toList ++ nested n ++ "= x;".toList) unlimited = .ok p ∧
      p.tree.withoutTrivia = .node .sourceFile [bindingTree (nestedTree n), .token .eof ""]) ∧
    ∀ kind word, IsIdentifier kind word →
      ∃ p, ofEntry .expression (List.replicate n '&' ++ word) unlimited = .ok p ∧
        p.tree.withoutTrivia = .node .sourceFile
          [referenceTree (namedTree kind (String.ofList word)) n, .token .eof ""] :=
  ⟨ofEntry_nested n, ofEntry_binding n, fun _ _ hword => ofEntry_ampersands n hword⟩

/-- The name that could begin a raw reference is an identifier as well. -/
theorem parsing_nested_raw : IsIdentifier .ident "raw".toList ∧
    ∃ p, ofEntry .expression "&&&raw".toList unlimited = .ok p ∧
      p.tree.withoutTrivia = .node .sourceFile [.node .refExpr [.token .amp "&",
        .node .refExpr [.token .amp "&", .node .refExpr [.token .amp "&",
          namedTree .ident "raw"]]], .token .eof ""] := by
  have hword : IsIdentifier .ident "raw".toList := ⟨.inl rfl, [], 'r', ['a', 'w'], rfl, rfl⟩
  exact ⟨hword, (parsing_nested 3).2.2 .ident _ hword⟩

end Parse
end Packrat
