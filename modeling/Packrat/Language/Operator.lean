/-
# Operators

Binary operators stand on levels.  Each level is a rule that folds operands of the next
tighter level, so that the ladder reads, from loose to tight:

| rule | operators | grouping |
| --- | --- | --- |
| `expr_assign` | `=` and the operators that end in it | right |
| `expr_range` | `..`, `..=` | at most one |
| `expr_or`, `expr_and` | two bars, two ampersands | left |
| `expr_cmp` | comparisons | at most one |
| `expr_bitor`, `expr_bitxor`, `expr_bitand` | bar, `^`, `&` | left |
| `expr_shift`, `expr_add`, `expr_mul` | `<<` `>>`, `+` `-`, `*` `/` `%` | left |
| `expr_cast` | `as` | left |
| `expr_unary` | `-`, `!`, `*`, `&` before the operand | |
| `expr_postfix` | fields, calls, indexing, `?` behind it | left |
-/

import Packrat.Language.Basic

namespace Packrat
namespace Language

open Peg

/-- How operators of one level group. -/
inductive Assoc where
  | left
  | right
  /-- At most one operator. -/
  | none
  deriving DecidableEq, Repr

/-- A level of binary operators. -/
structure Level where
  rule : String
  /-- The rule of the operands, which binds tighter. -/
  operand : String
  operators : List Kind
  assoc : Assoc
  deriving DecidableEq, Repr

/-- The operators that assign. -/
def assignments : List Kind :=
  [.eq, .plusEq, .minusEq, .starEq, .slashEq, .percentEq, .caretEq, .ampEq, .pipeEq, .shlEq,
   .shrEq]

/-- The operators that compare. -/
def comparisons : List Kind := [.eqEq, .bangEq, .lt, .gt, .ltEq, .gtEq]

/-- The levels of binary operators, the loosest first. -/
def levels : List Level :=
  [⟨"expr_assign", "expr_range", assignments, .right⟩,
   ⟨"expr_or", "expr_and", [.pipePipe], .left⟩,
   ⟨"expr_and", "expr_cmp", [.ampAmp], .left⟩,
   ⟨"expr_cmp", "expr_bitor", comparisons, .none⟩,
   ⟨"expr_bitor", "expr_bitxor", [.pipe], .left⟩,
   ⟨"expr_bitxor", "expr_bitand", [.caret], .left⟩,
   ⟨"expr_bitand", "expr_shift", [.amp], .left⟩,
   ⟨"expr_shift", "expr_add", [.shl, .shr], .left⟩,
   ⟨"expr_add", "expr_mul", [.plus, .minus], .left⟩,
   ⟨"expr_mul", "expr_cast", [.star, .slash, .percent], .left⟩]

/-- The rule of a level: operands with operators between them.  To the right of an
operator that groups to the right stands another expression of its level. -/
def Level.toRule (level : Level) : Rule :=
  let operand := Term.rule level.operand
  let behind (next : String) : Kind × Term :=
    (.binExpr, .seq [.anyOf level.operators, .rule next])
  { name := level.rule
    body := match level.assoc with
      | .left => .fold operand [behind level.operand] none
      | .none => .fold operand [behind level.operand] (some 1)
      | .right => .fold operand [behind level.rule] (some 1) }

/-- The upper end of a range.  In a head, a brace opens the body instead. -/
def rangeEnd : Term :=
  .seq [.choice [.whenClear .noStructs .empty, .notAhead (.token .lBrace)], .rule "expr_or"]

/-- Ranges, casts, prefix operators and postfix forms. -/
def operatorRules : List Rule :=
  [{ name := "expr", label := some "expression", body := .rule "expr_assign" }]
  ++ levels.map Level.toRule
  ++
  [{ name := "expr_range",
      body := .choice [
        .node .rangeToExpr (.seq [.anyOf [.dotDotEq, .dotDot], rangeEnd]),
        .node .rangeFullExpr (.token .dotDot),
        .fold (.rule "expr_or") [
          (.rangeExpr, .seq [.anyOf [.dotDotEq, .dotDot], rangeEnd]),
          (.rangeFromExpr, .token .dotDot)] (some 1)] },
   { name := "expr_cast",
      body := .fold (.rule "expr_unary") [
        (.castExpr, .seq [.token .asKw, .rule "type_no_bounds"])] none },
   { name := "expr_unary",
      body := .choice [
        .node .prefixExpr (.seq [.anyOf [.minus, .bang, .star], .rule "expr_unary"]),
        .node .refExpr (.seq [
          .split .amp,
          .opt (.choice [.seq [.word "raw", .anyOf [.constKw, .mutKw]], .token .mutKw]),
          .rule "expr_unary"]),
        .rule "expr_postfix"] },
   { name := "expr_postfix",
      body := .fold (.rule "expr_primary") [
        (.methodCallExpr, .seq [
          .token .dot, .node .nameRef (.rule "ident"),
          .opt (.seq [.token .colonColon, .rule "generic_args"]), .rule "arg_list"]),
        (.awaitExpr, .seq [.token .dot, .token .awaitKw]),
        (.fieldExpr, .seq [.token .dot, .node .nameRef (.anyOf [.ident, .rawIdent, .intNumber])]),
        (.callExpr, .rule "arg_list"),
        (.indexExpr, .seq [.token .lBracket, fresh (.rule "expr"), .token .rBracket]),
        (.tryExpr, .token .question)] none },
   { name := "arg_list", kind := some .argList, context := some .argumentList,
      body := .seq [.token .lParen, fresh (.opt (.list (.rule "expr") .comma)), .token .rParen] }]

end Language
end Packrat
