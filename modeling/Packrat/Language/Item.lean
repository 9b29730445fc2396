/-
# Items

An item is tried form by form; a macro call comes last.
-/

import Packrat.Language.Basic

namespace Packrat
namespace Language

open Peg

/-- The rules of items that may stand anywhere, in the order they are tried. -/
def itemNames : List String :=
  ["module", "extern_crate", "use", "fn", "type_alias", "struct", "enum", "union", "const",
   "static", "trait", "impl", "extern_block", "macro_rules"]

/-- Items, modules, imports and blocks of foreign items. -/
def itemRules : List Rule :=
  [{ name := "item", label := some "item",
      body := .choice (itemNames.map .rule ++ [.rule "macro_call_item"]) },
   -- Inside a block a macro call is a statement, not an item.
   { name := "item_in_block", body := .choice (itemNames.map .rule) },
   { name := "module", kind := some .moduleItem, context := some .module,
      body := .seq [
        attrs, vis, .opt (.token .unsafeKw), .token .modKw, .rule "name",
        .choice [
          .token .semicolon,
          .node .itemList (.seq [
            .token .lBrace, .star (.rule "inner_attr"), .star (.rule "item"), .token .rBrace])]] },
   { name := "rename", kind := some .rename,
      body := .seq [.token .asKw, .choice [.rule "name", .token .underscore]] },
   { name := "extern_crate", kind := some .externCrate,
      body := .seq [
        attrs, vis, .token .externKw, .token .crateKw,
        .node .nameRef (.choice [.rule "ident", .token .selfKw]), .opt (.rule "rename"),
        .token .semicolon] },
   { name := "use", kind := some .use, context := some .use,
      body := .seq [attrs, vis, .token .useKw, .rule "use_tree", .token .semicolon] },
   { name := "use_tree", kind := some .useTree,
      body := .choice [
        .seq [
          .opt (.seq [.opt (.rule "simple_path"), .token .colonColon]),
          .choice [.token .star, .rule "use_tree_list"]],
        .seq [.rule "simple_path", .opt (.rule "rename")]] },
   { name := "use_tree_list", kind := some .useTreeList,
      body := .seq [.token .lBrace, .opt (.list (.rule "use_tree") .comma), .token .rBrace] },
   { name := "extern_block", kind := some .externBlock, context := some .externBlock,
      body := .seq [
        attrs, .opt (.token .unsafeKw), .rule "abi",
        .node .externItemList (.seq [
          .token .lBrace, .star (.rule "inner_attr"),
          .star (.choice [
            .rule "fn", .rule "static", .rule "type_alias", .rule "macro_call_item"]),
          .token .rBrace])] }]

end Language
end Packrat
