/-
# Functions, data types and values

Words like `default`, `safe` and `union` are identifiers that act as keywords here only.
-/

import Packrat.Language.Basic

namespace Packrat
namespace Language

open Peg

/-- Functions, structs, unions, enums, aliases, constants and statics. -/
def definitionRules : List Rule :=
  [{ name := "fn", kind := some .fn, context := some .function,
      body := .seq [
        attrs, vis, .opt (.word "default"), .opt (.token .constKw), .opt (.token .asyncKw),
        .opt (.choice [.token .unsafeKw, .word "safe"]), .opt (.rule "abi"), .token .fnKw,
        .rule "name", .opt (.rule "generic_params"), .rule "param_list",
        .opt (.rule "ret_type"), .opt (.rule "where_clause"),
        .choice [.rule "block", .token .semicolon]] },
   { name := "param_list", kind := some .paramList, context := some .parameterList,
      body := .seq [
        .token .lParen,
        .opt (.choice [
          .seq [
            .rule "self_param",
            .opt (.seq [.token .comma, .opt (.list (.rule "param") .comma)])],
          .list (.rule "param") .comma]),
        .token .rParen] },
   { name := "self_param", kind := some .selfParam,
      body := .seq [
        attrs,
        .choice [
          .seq [.opt (.token .mutKw), .token .selfKw, .token .colon, .rule "type"],
          .seq [
            .opt (.seq [.split .amp, .opt (.token .lifetime)]), .opt (.token .mutKw),
            .token .selfKw]]] },
   { name := "param", kind := some .param,
      body := .seq [
        attrs,
        .choice [
          .seq [.rule "pat_single", .token .colon, .rule "type"],
          .seq [.opt (.seq [.rule "pat_single", .token .colon]), .token .dotDotDot],
          .rule "type"]] },
   { name := "struct", kind := some .struct, context := some .struct,
      body := .seq [
        attrs, vis, .token .structKw, .rule "name", .opt (.rule "generic_params"),
        .choice [
          .seq [
            .opt (.rule "where_clause"), .choice [.token .semicolon, .rule "record_field_list"]],
          .seq [.rule "tuple_field_list", .opt (.rule "where_clause"), .token .semicolon]]] },
   { name := "union", kind := some .union, context := some .union,
      body := .seq [
        attrs, vis, .word "union", .rule "name", .opt (.rule "generic_params"),
        .opt (.rule "where_clause"), .rule "record_field_list"] },
   { name := "record_field_list", kind := some .recordFieldList, context := some .fieldList,
      body := .seq [.token .lBrace, .opt (.list (.rule "record_field") .comma), .token .rBrace] },
   { name := "record_field", kind := some .recordField,
      body := .seq [
        attrs, vis, .rule "name", .token .colon, .rule "type",
        .opt (.seq [.token .eq, .rule "expr"])] },
   { name := "tuple_field_list", kind := some .tupleFieldList, context := some .fieldList,
      body := .seq [.token .lParen, .opt (.list (.rule "tuple_field") .comma), .token .rParen] },
   { name := "tuple_field", kind := some .tupleField, body := .seq [attrs, vis, .rule "type"] },
   { name := "enum", kind := some .enum, context := some .enum,
      body := .seq [
        attrs, vis, .token .enumKw, .rule "name", .opt (.rule "generic_params"),
        .opt (.rule "where_clause"),
        .node .variantList (.seq [
          .token .lBrace, .opt (.list (.rule "variant") .comma), .token .rBrace])] },
   { name := "variant", kind := some .variant,
      body := .seq [
        attrs, vis, .rule "name",
        .opt (.choice [.rule "record_field_list", .rule "tuple_field_list"]),
        .opt (.seq [.token .eq, .rule "expr"])] },
   { name := "type_alias", kind := some .typeAlias, context := some .typeAlias,
      body := .seq [
        attrs, vis, .opt (.word "default"), .token .typeKw, .rule "name",
        .opt (.rule "generic_params"), .opt (.seq [.token .colon, .opt (.rule "type_bounds")]),
        .opt (.rule "where_clause"), .opt (.seq [.token .eq, .rule "type"]),
        .opt (.rule "where_clause"), .token .semicolon] },
   { name := "const", kind := some .const, context := some .constant,
      body := .seq [
        attrs, vis, .opt (.word "default"), .token .constKw,
        .choice [.rule "name", .token .underscore], .opt (.rule "generic_params"),
        .opt (.seq [.token .colon, .rule "type"]), .opt (.seq [.token .eq, .rule "expr"]),
        .opt (.rule "where_clause"), .token .semicolon] },
   { name := "static", kind := some .static, context := some .static,
      body := .seq [
        attrs, vis, .opt (.choice [.token .unsafeKw, .word "safe"]), .token .staticKw,
        .opt (.token .mutKw), .rule "name", .token .colon, .rule "type",
        .opt (.seq [.token .eq, .rule "expr"]), .token .semicolon] }]

end Language
end Packrat
