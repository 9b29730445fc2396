/-
# Token trees and macros

A token tree is a group of tokens between matching delimiters.  Inside it any token may
stand but a delimiter that matches nothing.
-/

import Packrat.Language.Basic

namespace Packrat
namespace Language

open Peg

/-- The rules of a macro between two delimiters, with semicolons between them. -/
def rulesIn (opening closing : Kind) : Term :=
  .seq [
    .token opening,
    .opt (.seq [
      .rule "macro_rule", .star (.seq [.token .semicolon, .rule "macro_rule"]),
      .opt (.token .semicolon)]),
    .token closing]

/-- Token trees, macro calls and macro definitions. -/
def macroRules : List Rule :=
  [{ name := "token_tree", kind := some .tokenTree,
      body := .choice [
        .seq [.token .lParen, .star (.rule "tt"), .token .rParen],
        .seq [.token .lBracket, .star (.rule "tt"), .token .rBracket],
        .seq [.token .lBrace, .star (.rule "tt"), .token .rBrace]] },
   { name := "tt", label := some "token", body := .choice [.rule "token_tree", .any] },
   { name := "macro_args", context := some .macroCall, body := .rule "token_tree" },
   -- In the place of an expression, a pattern or a type.
   { name := "macro_call", kind := some .macroCall,
      body := .seq [.rule "simple_path", .token .bang, .rule "macro_args"] },
   -- In the place of a statement, where braces make a semicolon needless.
   { name := "braced_macro_call", kind := some .macroCall,
      body := .seq [
        .rule "simple_path", .token .bang, .ahead (.token .lBrace), .rule "macro_args"] },
   { name := "macro_call_item", kind := some .macroCall,
      body := .seq [
        attrs, .rule "simple_path", .token .bang,
        .choice [
          .seq [.ahead (.token .lBrace), .rule "macro_args"],
          .seq [.rule "macro_args", .token .semicolon]]] },
   { name := "macro_rules", kind := some .macroRules, context := some .macroRules,
      body := .seq [
        attrs, vis, .word "macro_rules", .token .bang, .rule "name",
        .choice [
          rulesIn .lBrace .rBrace, .seq [rulesIn .lParen .rParen, .token .semicolon],
          .seq [rulesIn .lBracket .rBracket, .token .semicolon]]] },
   { name := "macro_rule", kind := some .macroRule,
      body := .seq [
        .node .macroMatcher (.rule "token_tree"), .token .fatArrow,
        .node .macroTranscriber (.rule "token_tree")] }]

end Language
end Packrat
