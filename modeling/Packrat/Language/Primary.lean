/-
# Primary expressions

What operators apply to.  A struct literal is tried only where a brace does not open the
body of a head, and `let` only in a condition.
-/

import Packrat.Language.Basic

namespace Packrat
namespace Language

open Peg

/-- Primary expressions and literals. -/
def primaryRules : List Rule :=
  [{ name := "expr_primary", label := some "expression",
      body := .choice [
        .rule "literal",
        .node .parenExpr (.seq [.token .lParen, fresh (.rule "expr"), .token .rParen]),
        .node .tupleExpr (.seq [
          .token .lParen,
          fresh (.opt (.seq [.rule "expr", .token .comma, .opt (.list (.rule "expr") .comma)])),
          .token .rParen]),
        .node .arrayExpr (.seq [
          .token .lBracket,
          fresh (.opt (.choice [
            .seq [.rule "expr", .token .semicolon, .rule "expr"], .list (.rule "expr") .comma])),
          .token .rBracket]),
        .rule "block_like_expr", .rule "closure_expr",
        .node .returnExpr (.seq [.token .returnKw, .opt (.rule "expr")]),
        .node .breakExpr (.seq [.token .breakKw, .opt (.token .lifetime), .opt (.rule "expr")]),
        .node .continueExpr (.seq [.token .continueKw, .opt (.token .lifetime)]),
        .whenSet .lets (.node .letExpr (.seq [
          .token .letKw, .rule "pattern", .token .eq, .rule "expr_cmp"])),
        .rule "macro_call", .whenClear .noStructs (.rule "record_expr"),
        .node .pathExpr (.rule "expr_path")] },
   { name := "literal", kind := some .literal, label := some "literal",
      body := .anyOf [
        .intNumber, .floatNumber, .string, .rawString, .byteString, .rawByteString, .char,
        .byte, .trueKw, .falseKw] }]

end Language
end Packrat
