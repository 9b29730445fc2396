/-
# Chains of operators, parsed

What parsing the text of a chain comes to (`Parse.parsing_chain`):

| comparisons between assignments, `||` and `&&` | parsing gives |
| --- | --- |
| at most one in every stretch | the tree of the shunting yard |
| two in some stretch | an error at the leftmost second one |

The ladder reads as much of a chain as it can.  If that is all, then it has read a grouped tree,
and there is only one over the chain.  If not, then it has stopped at a second comparison;
there it has asked for tokens only, among them the tightest operators.
-/

import Packrat.Proofs.Diagnostic.Expected
import Packrat.Proofs.Parse.ChainTree
import Packrat.Proofs.Parse.Computed

namespace Packrat
namespace Parse

open Peg Packrat.Language

/-! ## Errors at a token -/

/-- The syntax error of a failure at a token that is not the end of the text. -/
theorem syntaxError_eq {s : TokenStream} {F : Failure} {i : Nat} {t : Token}
    (ht : s.tokens[i]? = some t) (hpos : F.pos = ⟨i, 0⟩) (hkind : t.kind ≠ .eof) :
    syntaxError s F = .of t.position t.range.start t.text.utf8ByteSize (some t.text) F.expected
      F.context := by
  have hlt := (Array.getElem?_eq_some_iff.mp ht).1
  have hmin : min i (s.size - 1) = i := by
    rw [TokenStream.size]
    omega
  have hdrop : Text.dropBytes? 0 t.text.toList = some t.text.toList :=
    Text.dropBytes?_eq_some_iff.mpr ⟨[], rfl, rfl⟩
  simp [syntaxError, hpos, hmin, ht, hkind, hdrop]

/-- A comparison operator, as it is found. -/
theorem mem_comparisons_of_compares {op : BinaryOp} (h : op.compares = true) :
    "'" ++ String.ofList op.word ++ "'" ∈ SyntaxError.comparisons := by
  have hall : ∀ kind ∈ Language.comparisons,
      "'" ++ String.ofList (kind.spelling?.getD "").toList ++ "'" ∈ SyntaxError.comparisons := by
    decide
  exact hall op.kind (by simpa [BinaryOp.compares] using h)

/-! ## Chains -/

/-- A comparison behind some operators is the second one in its stretch: before it the
stretches are settled, with it they are not. -/
structure IsSecond (before : List BinaryOp) (op : BinaryOp) : Prop where
  compares : op.compares = true
  settled : IsSettled before
  unsettled : ¬ IsSettled (before ++ [op])

/-- The error is at the token behind the text `before` and a space, and says that comparisons
cannot be chained. -/
structure RejectsBehind (before : List Char) (e : SyntaxError) : Prop where
  offset : e.offset = Text.byteSize (before ++ [' '])
  position : e.position = (Cursor.advance {} (before ++ [' '])).position
  code : e.code.tag = "E0403"

variable {c : Chain}

/-- The failure where the ladder has stopped in front of a comparison. -/
theorem rejectsBehind_of_stops {before behind : List (BinaryOp × Integer)} {op : BinaryOp}
    {x : Integer} (hrest : c.rest = before ++ (op, x) :: behind) (hop : op.compares = true)
    {F : Failure} (hpos : F.pos = ⟨2 * before.length + 1, 0⟩)
    (htightest : ∀ kind ∈ tightest, .token kind ∈ F.expected)
    (htokens : ∀ what ∈ F.expected, ∃ kind, what = .token kind)
    (hcontext : Machine.OutsideTypes F.context) :
    RejectsBehind (Chain.text ⟨c.first, before⟩) (syntaxError c.stream F) := by
  obtain ⟨ht, -⟩ := getElem?_of_drop (Chain.drop_stream _ _ hrest)
  rw [syntaxError_eq ht hpos op.kind_ne_eof]
  refine ⟨rfl, rfl, ?_⟩
  exact congrArg ErrorCode.tag (SyntaxError.code_of_operators _ _ _
    (mem_comparisons_of_compares hop) htokens (by decide) (by decide) (by decide) htightest
    hcontext)

/-- What parsing a chain comes to, told by the part of it that the ladder reads. -/
theorem exists_part (c : Chain) : ∃ e left, Grown 0 0 c.first c.rest e left ∧
    (left = [] → ∃ p, ofEntry .expression c.text unlimited = .ok p ∧
      p.tree = .node .sourceFile [e.toTree, .token .eof ""]) ∧
    ∀ op x behind, left = (op, x) :: behind → op.compares = true → ∃ error,
      ofEntry .expression c.text unlimited = .error (.parse (.syntaxError error)) ∧
        RejectsBehind (Chain.text ⟨c.first, e.links⟩) error := by
  obtain ⟨g, hg⟩ := Language.exists_grammar
  obtain ⟨e, left, hgrown, hreads, hasks⟩ := Machine.exists_reads_wholeExpr
    (m := machine g c.stream unlimited) (isClimbable_grammar hg) (c.isAt_stream rfl)
  obtain ⟨table, r, hnone, hrun, hanswer, ha⟩ := run_of_parses hg c.ofText_text
    (fun g => isPlain_rule_ended Entry.expression.ruleName) hreads.parses
  have hentry : ofEntry .expression c.text unlimited = answer c.stream r :=
    (bind_stream c.ofText_text _).trans hanswer
  refine ⟨e, left, hgrown, ?_, ?_⟩
  · rintro rfl
    obtain ⟨stats, hok⟩ := answer_eq_ok (s := c.stream) ha
    refine ⟨_, hentry.trans hok, ?_⟩
    exact Expr.build_toMatch hgrown.first (by rw [← hgrown.links, List.append_nil])
  · rintro op x behind rfl hop
    obtain ⟨F, hresult, herror⟩ := answer_eq_error (s := c.stream) ha
    obtain ⟨hpos, hexpected, htokens, hcontext⟩ :=
      hreads.furthest (hasks .star (by decide)) ⟨rfl, rfl⟩ hnone hrun hresult
    exact ⟨_, hentry.trans herror, rejectsBehind_of_stops hgrown.links.symm hop hpos
      (fun kind hkind => hexpected _ (hasks kind hkind)) htokens hcontext⟩

/-- Where the ladder stops is a second comparison. -/
theorem isSecond_of_grown {e : Expr} {op : BinaryOp} {x : Integer}
    {behind : List (BinaryOp × Integer)}
    (h : Grown 0 0 c.first c.rest e ((op, x) :: behind)) : IsSecond e.ops op := by
  rcases h.leavesOff op rfl with hlt | ⟨hthree, hopen⟩
  · exact absurd hlt (Nat.not_lt_zero _)
  · have hop := BinaryOp.compares_iff.mpr hthree
    exact ⟨hop, isSettled_iff.mpr h.settles, not_isSettled_of_endsOpen hopen hop⟩

/-- **Parsing a chain.**  The text of integers with binary operators between them has a tree
exactly if no stretch between assignments, `||` and `&&` holds two comparisons.  The tree is then
the one that the shunting yard builds from the levels of the operators.  If there is none, the
error is at the leftmost comparison that is the second one in its stretch. -/
theorem parsing_chain (c : Chain) :
    ((∃ p, ofEntry .expression c.text unlimited = .ok p) ↔ IsSettled c.ops) ∧
      (∀ p, ofEntry .expression c.text unlimited = .ok p →
        p.tree = .node .sourceFile [c.tree.toTree, .token .eof ""]) ∧
      ∀ r, ofEntry .expression c.text unlimited = .error r →
        ∃ before op x behind e, c.rest = before ++ (op, x) :: behind ∧
          IsSecond (before.map (·.1)) op ∧ r = .parse (.syntaxError e) ∧
          RejectsBehind (Chain.text ⟨c.first, before⟩) e := by
  obtain ⟨e, left, hgrown, hwhole, hpart⟩ := exists_part c
  cases left with
  | nil =>
    obtain ⟨p, hp, htree⟩ := hwhole rfl
    have hlinks : e.links = c.rest := by rw [← hgrown.links, List.append_nil]
    have hsettled : IsSettled c.ops := by
      rw [Chain.ops, ← hlinks]
      exact isSettled_iff.mpr hgrown.settles
    rw [hp, Chain.tree_eq hgrown.isGrouped hgrown.first hlinks]
    refine ⟨⟨fun _ => hsettled, fun _ => ⟨p, rfl⟩⟩, ?_, ?_⟩
    · rintro p' ⟨⟩
      exact htree
    · rintro r ⟨⟩
  | cons link behind =>
    have hsecond := isSecond_of_grown hgrown
    obtain ⟨error, herror, hrejects⟩ := hpart link.1 link.2 behind rfl hsecond.compares
    have hunsettled : ¬ IsSettled c.ops := by
      intro hsettled
      refine hsecond.unsettled ?_
      have hops : c.ops = (e.ops ++ [link.1]) ++ behind.map (·.1) := by
        rw [Chain.ops, ← hgrown.links]
        simp [Expr.ops]
      rw [isSettled_iff, hops, settles_append] at hsettled
      exact isSettled_iff.mpr (Bool.and_eq_true_iff.mp hsettled).1
    rw [herror]
    refine ⟨⟨?_, fun h => absurd h hunsettled⟩, ?_, ?_⟩
    · rintro ⟨p, ⟨⟩⟩
    · rintro p ⟨⟩
    · rintro r ⟨⟩
      exact ⟨e.links, link.1, link.2, behind, error, hgrown.links.symm, hsecond, rfl, hrejects⟩

/-- An integer of one digit. -/
def digit (d : Char) (hd : d.isDigit = true) : Integer :=
  ⟨[d], Lexeme.isInteger_of_digits hd (by simp)⟩

/-- The chain `1 = 2 - 3 - 4 < 5`. -/
def groupedChain : Chain :=
  ⟨digit '1' rfl, [(⟨.eq, 0, by decide⟩, digit '2' rfl), (⟨.minus, 8, by decide⟩, digit '3' rfl),
    (⟨.minus, 8, by decide⟩, digit '4' rfl), (⟨.lt, 3, by decide⟩, digit '5' rfl)]⟩

/-- The chain `1 < 2 == 3`. -/
def chainedChain : Chain :=
  ⟨digit '1' rfl, [(⟨.lt, 3, by decide⟩, digit '2' rfl), (⟨.eqEq, 3, by decide⟩, digit '3' rfl)]⟩

/-- Both come up: the first chain has its tree, the second one an error at `==`. -/
theorem parsing_chain_both :
    (∃ p, ofEntry .expression "1 = 2 - 3 - 4 < 5".toList unlimited = .ok p ∧
      p.tree.outline = "(SOURCE_FILE (BIN_EXPR (LITERAL 1) = (BIN_EXPR (BIN_EXPR " ++
        "(BIN_EXPR (LITERAL 2) - (LITERAL 3)) - (LITERAL 4)) < (LITERAL 5))))") ∧
    ∃ e, ofEntry .expression "1 < 2 == 3".toList unlimited = .error (.parse (.syntaxError e)) ∧
      e.offset = 6 ∧ e.position = ⟨1, 6⟩ ∧ e.code.tag = "E0403" := by
  constructor
  · obtain ⟨hiff, htree, -⟩ := parsing_chain groupedChain
    obtain ⟨p, hp⟩ := hiff.mpr (isSettled_iff.mpr rfl)
    refine ⟨p, hp, ?_⟩
    rw [htree p hp]
    decide +kernel
  · obtain ⟨hiff, -, herror⟩ := parsing_chain chainedChain
    cases hr : ofEntry .expression chainedChain.text unlimited with
    | ok p =>
      have hsettled := isSettled_iff.mp (hiff.mp ⟨p, hr⟩)
      exact absurd hsettled (by decide)
    | error r =>
      obtain ⟨before, op, x, behind, e, hrest, hsecond, rfl, hrejects⟩ := herror r hr
      rcases before with _ | ⟨link, _ | ⟨link', before⟩⟩
      · obtain ⟨hlink, -⟩ := List.cons_eq_cons.mp hrest
        cases hlink
        exact absurd (isSettled_iff.mpr rfl) hsecond.unsettled
      · obtain ⟨rfl, -⟩ := List.cons_eq_cons.mp hrest
        exact ⟨e, hr, hrejects.offset.trans (by decide), hrejects.position.trans (by decide),
          hrejects.code⟩
      · have hlength := congrArg List.length hrest
        simp [chainedChain] at hlength

end Parse
end Packrat
