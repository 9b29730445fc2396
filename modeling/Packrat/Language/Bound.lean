/-
# Bounds and function types

A bound is a lifetime, a trait path with modifiers, in parentheses or not, or the list of
what a type captures.
-/

import Packrat.Language.Basic

namespace Packrat
namespace Language

open Peg

/-- What may stand before the path of a bound. -/
def boundModifier : Term :=
  .choice [
    .token .question, .seq [.token .tilde, .token .constKw], .token .constKw, .token .asyncKw]

/-- Bounds, results and function pointers. -/
def boundRules : List Rule :=
  [{ name := "type_bounds", kind := some .typeBoundList,
      body := .seq [
        .rule "type_bound", .star (.seq [.token .plus, .rule "type_bound"]),
        .opt (.token .plus)] },
   { name := "type_bound", kind := some .typeBound, label := some "bound",
      body := .choice [
        .token .lifetime,
        .seq [
          .token .lParen, .opt boundModifier, .opt (.rule "for_lifetimes"), .rule "type_path",
          .token .rParen],
        .seq [.opt boundModifier, .opt (.rule "for_lifetimes"), .rule "type_path"],
        .seq [
          .token .useKw, .split .lt,
          .opt (.list (.choice [.token .lifetime, .rule "name_ref"]) .comma), .split .gt]] },
   { name := "lifetime_bounds", kind := some .typeBoundList,
      body := .seq [
        .node .typeBound (.token .lifetime),
        .star (.seq [.token .plus, .node .typeBound (.token .lifetime)]), .opt (.token .plus)] },
   { name := "for_lifetimes", kind := some .forLifetimes,
      body := .seq [.token .forKw, .rule "generic_params"] },
   { name := "ret_type", kind := some .retType,
      body := .seq [.token .thinArrow, .rule "type"] },
   { name := "ret_type_no_bounds", kind := some .retType,
      body := .seq [.token .thinArrow, .rule "type_no_bounds"] },
   { name := "abi", kind := some .abi,
      body := .seq [.token .externKw, .opt (.anyOf [.string, .rawString])] },
   { name := "fn_ptr_type", kind := some .fnPtrType,
      body := .seq [
        .opt (.rule "for_lifetimes"), .opt (.token .unsafeKw), .opt (.rule "abi"), .token .fnKw,
        .node .paramList (.seq [
          .token .lParen, .opt (.list (.rule "fn_ptr_param") .comma), .token .rParen]),
        .opt (.rule "ret_type_no_bounds")] },
   { name := "fn_ptr_param", kind := some .param,
      body := .seq [
        attrs,
        .choice [
          .seq [
            .opt (.seq [
              .choice [.node .name (.rule "ident"), .token .underscore], .token .colon]),
            .rule "type"],
          .token .dotDotDot]] }]

end Language
end Packrat
