/-
# Names, attributes and visibility

A name is an identifier, raw or not; a reference may also be one of the keywords that
stand for a place or a type.  `crate` alone is a visibility of old, unless a path goes on
behind it.
-/

import Packrat.Language.Basic

namespace Packrat
namespace Language

open Peg

/-- What an attribute holds: a path, and tokens or a value behind it. -/
def metaBody : Term :=
  .seq [
    .rule "simple_path", .opt (.choice [.rule "token_tree", .seq [.token .eq, .rule "expr"]])]

/-- Names and references to them, attributes and visibility. -/
def nameRules : List Rule :=
  [{ name := "ident", body := .anyOf [.ident, .rawIdent] },
   { name := "name", kind := some .name, label := some "identifier", body := .rule "ident" },
   { name := "name_ref", kind := some .nameRef, label := some "identifier",
      body := .choice [
        .rule "ident", .anyOf [.selfKw, .superKw, .crateKw, .selfTypeKw],
        .seq [.token .dollar, .token .crateKw]] },
   { name := "label", kind := some .label, body := .seq [.token .lifetime, .token .colon] },
   { name := "outer_attr", kind := some .attr, context := some .attr,
      body := .seq [.token .pound, .token .lBracket, .rule "meta", .token .rBracket] },
   { name := "inner_attr", kind := some .innerAttr, context := some .attr,
      body := .seq [
        .token .pound, .token .bang, .token .lBracket, .rule "meta", .token .rBracket] },
   { name := "attrs", body := .star (.rule "outer_attr") },
   { name := "meta", kind := some .metaItem,
      body := .choice [
        .seq [.token .unsafeKw, .token .lParen, metaBody, .token .rParen], metaBody] },
   { name := "visibility", kind := some .visibility,
      body := .choice [
        .seq [
          .token .pubKw, .token .lParen,
          .choice [
            .anyOf [.crateKw, .selfKw, .superKw], .seq [.token .inKw, .rule "simple_path"]],
          .token .rParen],
        .token .pubKw, .seq [.token .crateKw, .notAhead (.token .colonColon)]] }]

end Language
end Packrat
