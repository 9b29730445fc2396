/-
# Blocks and control flow

A block holds inner attributes, statements and perhaps a last expression, its value.  The
arms of a match end in a comma, at the closing brace, or behind a block.
-/

import Packrat.Language.Basic

namespace Packrat
namespace Language

open Peg

/-- Blocks, conditions, loops and matches. -/
def blockRules : List Rule :=
  [{ name := "block_body", context := some .block,
      body := .seq [
        .token .lBrace,
        fresh (.seq [.star (.rule "inner_attr"), .star (.rule "stmt"), .opt (.rule "expr")]),
        .token .rBrace] },
   { name := "block", kind := some .blockExpr, label := some "block",
      body := .rule "block_body" },
   { name := "block_expr", kind := some .blockExpr,
      body := .seq [
        .opt (.rule "label"),
        .opt (.choice [
          .token .unsafeKw, .seq [.token .asyncKw, .opt (.token .moveKw)], .token .constKw]),
        .rule "block_body"] },
   -- What may stand as a statement without a semicolon.
   { name := "block_like_expr",
      body := .choice [
        .rule "if_expr", .rule "match_expr", .rule "loop_expr", .rule "while_expr",
        .rule "for_expr", .rule "block_expr"] },
   { name := "condition", body := inCondition (.rule "expr") },
   { name := "if_expr", kind := some .ifExpr,
      body := .seq [
        .token .ifKw, .rule "condition", .rule "block",
        .opt (.seq [.token .elseKw, .choice [.rule "if_expr", .rule "block"]])] },
   { name := "loop_expr", kind := some .loopExpr,
      body := .seq [.opt (.rule "label"), .token .loopKw, .rule "block"] },
   { name := "while_expr", kind := some .whileExpr,
      body := .seq [.opt (.rule "label"), .token .whileKw, .rule "condition", .rule "block"] },
   { name := "for_expr", kind := some .forExpr,
      body := .seq [
        .opt (.rule "label"), .token .forKw, .rule "pattern", .token .inKw, head (.rule "expr"),
        .rule "block"] },
   { name := "match_expr", kind := some .matchExpr,
      body := .seq [.token .matchKw, head (.rule "expr"), .rule "match_arm_list"] },
   { name := "match_arm_list", kind := some .matchArmList,
      body := .seq [
        .token .lBrace, fresh (.seq [.star (.rule "inner_attr"), .star (.rule "match_arm")]),
        .token .rBrace] },
   { name := "match_arm", kind := some .matchArm, context := some .matchArm,
      body := .seq [
        attrs, .rule "pattern",
        .opt (.node .matchGuard (.seq [.token .ifKw, .withFlags .lets (.rule "expr")])),
        .token .fatArrow,
        .choice [
          .seq [.rule "expr", .token .comma], .seq [.rule "expr", .ahead (.token .rBrace)],
          .seq [.rule "block_like_expr", .opt (.token .comma)]]] }]

end Language
end Packrat
