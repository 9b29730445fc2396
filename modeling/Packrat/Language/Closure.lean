/-
# Closures and struct literals

A closure with a written result has a block for a body.  A struct literal ends in a field,
a comma, or a base to take the other fields from.
-/

import Packrat.Language.Basic

namespace Packrat
namespace Language

open Peg

/-- Closures and struct literals. -/
def closureRules : List Rule :=
  [{ name := "closure_expr", kind := some .closureExpr, context := some .closure,
      body := .seq [
        .opt (.seq [.token .forKw, .rule "generic_params"]), .opt (.token .staticKw),
        .opt (.token .asyncKw), .opt (.token .moveKw),
        .node .paramList (.choice [
          .token .pipePipe,
          .seq [.token .pipe, .opt (.list (.rule "closure_param") .comma), .token .pipe]]),
        .choice [.seq [.rule "ret_type_no_bounds", .rule "block"], .rule "expr"]] },
   { name := "closure_param", kind := some .param,
      body := .seq [attrs, .rule "pat_single", .opt (.seq [.token .colon, .rule "type"])] },
   { name := "record_expr", kind := some .recordExpr,
      body := .seq [.rule "expr_path", .rule "record_expr_field_list"] },
   { name := "record_expr_field_list", kind := some .recordExprFieldList,
      context := some .structLiteral,
      body := .seq [
        .token .lBrace,
        fresh (.seq [
          .star (.seq [.rule "record_expr_field", .token .comma]),
          .opt (.choice [.seq [.token .dotDot, .opt (.rule "expr")], .rule "record_expr_field"])]),
        .token .rBrace] },
   { name := "record_expr_field", kind := some .recordExprField,
      body := .seq [
        attrs,
        .choice [
          .seq [
            .node .nameRef (.anyOf [.ident, .rawIdent, .intNumber]), .token .colon,
            .rule "expr"],
          .node .nameRef (.rule "ident")]] }]

end Language
end Packrat
