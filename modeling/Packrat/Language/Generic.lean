/-
# Generic parameters and where clauses

The closing `>` of a parameter list may be the first piece of a longer punctuator.
-/

import Packrat.Language.Basic

namespace Packrat
namespace Language

open Peg

/-- Generic parameters and where clauses. -/
def genericRules : List Rule :=
  [{ name := "generic_params", kind := some .genericParamList, context := some .genericParameters,
      body := .seq [.token .lt, .opt (.list (.rule "generic_param") .comma), .split .gt] },
   { name := "generic_param", label := some "generic parameter",
      body := .choice [
        .node .lifetimeParam (.seq [
          attrs, .token .lifetime, .opt (.seq [.token .colon, .opt (.rule "lifetime_bounds")])]),
        .node .constParam (.seq [
          attrs, .token .constKw, .rule "name", .token .colon, .rule "type",
          .opt (.seq [.token .eq, .rule "const_arg_body"])]),
        .node .typeParam (.seq [
          attrs, .rule "name", .opt (.seq [.token .colon, .opt (.rule "type_bounds")]),
          .opt (.seq [.token .eq, .rule "type"])])] },
   { name := "where_clause", kind := some .whereClause, context := some .whereClause,
      body := .seq [.token .whereKw, .opt (.list (.rule "where_pred") .comma)] },
   { name := "where_pred", kind := some .wherePred,
      body := .choice [
        .seq [.token .lifetime, .token .colon, .opt (.rule "lifetime_bounds")],
        .seq [
          .opt (.rule "for_lifetimes"), .rule "type", .token .colon, .opt (.rule "type_bounds")]] }]

end Language
end Packrat
