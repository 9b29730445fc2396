/-
# Traits and implementations

The type that is implemented for is the one behind `for`, if there is one.
-/

import Packrat.Language.Basic

namespace Packrat
namespace Language

open Peg

/-- Traits, implementations and what they hold. -/
def traitRules : List Rule :=
  [{ name := "assoc_item_list", kind := some .assocItemList,
      body := .seq [
        .token .lBrace, .star (.rule "inner_attr"), .star (.rule "assoc_item"), .token .rBrace] },
   { name := "assoc_item", label := some "associated item",
      body := .choice [.rule "fn", .rule "type_alias", .rule "const", .rule "macro_call_item"] },
   { name := "trait", kind := some .trait, context := some .trait,
      body := .seq [
        attrs, vis, .opt (.token .unsafeKw), .opt (.word "auto"), .token .traitKw, .rule "name",
        .opt (.rule "generic_params"),
        .choice [
          .seq [
            .token .eq, .opt (.rule "type_bounds"), .opt (.rule "where_clause"),
            .token .semicolon],
          .seq [
            .opt (.seq [.token .colon, .opt (.rule "type_bounds")]),
            .opt (.rule "where_clause"), .rule "assoc_item_list"]]] },
   { name := "impl", kind := some .impl, context := some .impl,
      body := .seq [
        attrs, vis, .opt (.word "default"), .opt (.token .unsafeKw), .token .implKw,
        .opt (.rule "generic_params"), .opt (.token .constKw),
        .choice [
          .seq [.opt (.token .bang), .rule "type", .token .forKw, .rule "type"], .rule "type"],
        .opt (.rule "where_clause"), .rule "assoc_item_list"] }]

end Language
end Packrat
