/-
# Patterns

A pattern may have alternatives; a single pattern has none, for the places where `|` means
something else.  A name is a binding unless what follows makes it a path.
-/

import Packrat.Language.Basic

namespace Packrat
namespace Language

open Peg

/-- An end of a range pattern. -/
def rangeBound : Term := .rule "range_pat_bound"

/-- Patterns. -/
def patternRules : List Rule :=
  [{ name := "pattern", label := some "pattern",
      body := .seq [
        .opt (.token .pipe),
        .choice [
          .node .orPat (.seq [
            .rule "pat_single", .plus (.seq [.token .pipe, .rule "pat_single"])]),
          .rule "pat_single"]] },
   { name := "pat_single", label := some "pattern",
      body := .choice [
        .rule "range_pat", .rule "literal_pat", .node .wildcardPat (.token .underscore),
        .node .restPat (.token .dotDot),
        .node .refPat (.seq [.split .amp, .opt (.token .mutKw), .rule "pat_single"]),
        .rule "macro_call", .rule "record_pat", .rule "tuple_struct_pat", .rule "ident_pat",
        .node .pathPat (.rule "expr_path"),
        .node .parenPat (.seq [
          .token .lParen, .notAhead (.seq [.token .dotDot, .token .rParen]), .rule "pattern",
          .token .rParen]),
        .node .tuplePat (.seq [
          .token .lParen, .opt (.list (.rule "pattern") .comma), .token .rParen]),
        .node .slicePat (.seq [
          .token .lBracket, .opt (.list (.rule "pattern") .comma), .token .rBracket])] },
   { name := "literal_pat", kind := some .literalPat,
      body := .seq [.opt (.token .minus), .rule "literal"] },
   { name := "range_pat_bound",
      body := .choice [.rule "literal_pat", .node .pathPat (.rule "expr_path")] },
   { name := "range_pat", kind := some .rangePat,
      body := .choice [
        .seq [rangeBound, .anyOf [.dotDotEq, .dotDotDot], rangeBound],
        .seq [rangeBound, .token .dotDot, rangeBound], .seq [rangeBound, .token .dotDot],
        .seq [.token .dotDotEq, rangeBound]] },
   { name := "ident_pat", kind := some .identPat,
      body := .seq [
        .opt (.token .refKw), .opt (.token .mutKw), .rule "name",
        .notAhead (.anyOf [.colonColon, .lParen, .lBrace, .bang]),
        .opt (.seq [.token .atSign, .rule "pat_single"])] },
   { name := "tuple_struct_pat", kind := some .tupleStructPat,
      body := .seq [
        .rule "expr_path", .token .lParen, .opt (.list (.rule "pattern") .comma),
        .token .rParen] },
   { name := "record_pat", kind := some .recordPat,
      body := .seq [
        .rule "expr_path",
        .node .recordPatFieldList (.seq [
          .token .lBrace, .star (.seq [.rule "record_pat_field", .token .comma]),
          .opt (.rule "record_pat_field"), .token .rBrace])] },
   { name := "record_pat_field",
      body := .choice [
        .node .restPat (.seq [attrs, .token .dotDot]),
        .node .recordPatField (.seq [
          attrs,
          .choice [
            .seq [
              .node .nameRef (.anyOf [.ident, .rawIdent, .intNumber]), .token .colon,
              .rule "pattern"],
            .node .identPat (.seq [.opt (.token .refKw), .opt (.token .mutKw), .rule "name"])]])] }]

end Language
end Packrat
