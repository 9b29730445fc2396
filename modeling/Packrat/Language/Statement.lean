/-
# Statements

Expressions that end in a block, and macro calls in braces, are statements without a
semicolon unless a method call or `?` continues them.  Any other expression needs one.
-/

import Packrat.Language.Basic

namespace Packrat
namespace Language

open Peg

/-- Statements. -/
def statementRules : List Rule :=
  [{ name := "stmt", label := some "statement",
      body := .choice [
        .token .semicolon, .rule "item_in_block", .rule "let_stmt",
        .node .exprStmt (.seq [
          attrs, .choice [.rule "block_like_expr", .rule "braced_macro_call"],
          .notAhead (.anyOf [.dot, .question]), .opt (.token .semicolon)]),
        .node .exprStmt (.seq [attrs, .rule "expr", .token .semicolon])] },
   { name := "let_stmt", kind := some .letStmt, context := some .letStatement,
      body := .seq [
        attrs, .token .letKw, .rule "pattern", .opt (.seq [.token .colon, .rule "type"]),
        .opt (.seq [
          .token .eq, .rule "expr",
          .opt (.node .letElse (.seq [.token .elseKw, .rule "block"]))]),
        .token .semicolon] }]

end Language
end Packrat
