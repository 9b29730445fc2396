/-
# Types

Alternatives are tried in order: a list of bounds without a keyword comes before a plain
path, which would match its first bound.
-/

import Packrat.Language.Basic

namespace Packrat
namespace Language

open Peg

/-- Types. -/
def typeRules : List Rule :=
  [{ name := "type", label := some "type",
      body := .choice [
        .node .implTraitType (.seq [.token .implKw, .rule "type_bounds"]),
        .node .dynTraitType (.seq [.token .dynKw, .rule "type_bounds"]),
        .node .dynTraitType (.node .typeBoundList (.seq [
          .rule "type_bound", .plus (.seq [.token .plus, .rule "type_bound"]),
          .opt (.token .plus)])),
        .rule "type_no_bounds"] },
   -- Where a plus sign behind the type would belong to something else.
   { name := "type_no_bounds", label := some "type",
      body := .choice [
        .node .parenType (.seq [.token .lParen, .rule "type", .token .rParen]),
        .node .tupleType (.seq [
          .token .lParen,
          .opt (.seq [.rule "type", .token .comma, .opt (.list (.rule "type") .comma)]),
          .token .rParen]),
        .node .neverType (.token .bang),
        .node .ptrType (.seq [.token .star, .anyOf [.constKw, .mutKw], .rule "type_no_bounds"]),
        .node .refType (.seq [
          .split .amp, .opt (.token .lifetime), .opt (.token .mutKw), .rule "type_no_bounds"]),
        .node .arrayType (.seq [
          .token .lBracket, .rule "type", .token .semicolon, fresh (.rule "expr"),
          .token .rBracket]),
        .node .sliceType (.seq [.token .lBracket, .rule "type", .token .rBracket]),
        .node .inferType (.token .underscore), .rule "fn_ptr_type",
        .node .implTraitType (.seq [.token .implKw, .node .typeBoundList (.rule "type_bound")]),
        .node .dynTraitType (.seq [.token .dynKw, .node .typeBoundList (.rule "type_bound")]),
        .rule "macro_call", .node .pathType (.rule "type_path")] }]

end Language
end Packrat
