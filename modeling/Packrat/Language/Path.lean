/-
# Paths and generic arguments

Paths differ in what may follow a segment:

| path | arguments |
| --- | --- |
| simple | none: attributes, imports, macro names |
| in types | generic arguments, or types in parentheses with a result |
| in expressions | generic arguments behind `::`, or before `(` or `::` |
-/

import Packrat.Language.Basic

namespace Packrat
namespace Language

open Peg

/-- A path segment without arguments. -/
def simpleSegment : Term := .node .pathSegment (.rule "name_ref")

/-- Segments behind a qualified type, or plain segments. -/
def pathBody (segment : String) : Term :=
  .choice [
    .seq [.rule "qualified_path_type", .plus (.seq [.token .colonColon, .rule segment])],
    .seq [
      .opt (.token .colonColon), .rule segment,
      .star (.seq [.token .colonColon, .rule segment])]]

/-- Paths and generic arguments. -/
def pathRules : List Rule :=
  [{ name := "simple_path", kind := some .path, label := some "path",
      body := .seq [
        .opt (.token .colonColon), simpleSegment,
        .star (.seq [.token .colonColon, simpleSegment])] },
   { name := "type_path", kind := some .path, label := some "path",
      body := pathBody "type_path_segment" },
   { name := "type_path_segment", kind := some .pathSegment,
      body := .seq [
        .rule "name_ref",
        .opt (.choice [
          .seq [.opt (.token .colonColon), .rule "generic_args"],
          .seq [.rule "paren_args", .opt (.rule "ret_type_no_bounds")]])] },
   { name := "paren_args", kind := some .parenArgList,
      body := .seq [.token .lParen, .opt (.list (.rule "type") .comma), .token .rParen] },
   { name := "expr_path", kind := some .path, label := some "path",
      body := pathBody "expr_path_segment" },
   { name := "expr_path_segment", kind := some .pathSegment,
      body := .seq [
        .rule "name_ref",
        .opt (.choice [
          .seq [.token .colonColon, .rule "generic_args"],
          .seq [.rule "generic_args", .ahead (.anyOf [.lParen, .colonColon])]])] },
   { name := "qualified_path_type", kind := some .qualifiedPathType,
      body := .seq [
        .split .lt, .rule "type", .opt (.seq [.token .asKw, .rule "type_path"]), .split .gt] },
   { name := "generic_args", kind := some .genericArgList, context := some .genericArguments,
      body := .seq [.split .lt, .opt (.list (.rule "generic_arg") .comma), .split .gt] },
   { name := "generic_arg", label := some "generic argument",
      body := .choice [
        .node .lifetimeArg (.token .lifetime),
        .node .assocTypeArg (.seq [
          .rule "name_ref", .opt (.rule "generic_args"),
          .choice [
            .seq [.token .eq, .choice [.rule "type", .rule "const_arg_body"]],
            .seq [.token .colon, .rule "type_bounds"]]]),
        .node .typeArg (.rule "type"), .node .constArg (.rule "const_arg_body")] },
   -- A block, a literal, or a negative literal.
   { name := "const_arg_body",
      body := .choice [
        .rule "block", .rule "literal",
        .node .prefixExpr (.seq [.token .minus, .rule "literal"])] }]

end Language
end Packrat
