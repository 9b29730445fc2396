/-
# What stands under which node

The rows of the nodes whose parts are looked up one by one.  A row tells in one line what the rules
spread over several, among them rules that make no node of their own and other rules for nodes of
the same kind; that all of them keep to the rows is checked once (`lays_grammar`).

The rules make no node for a file: it is the root, and has a row of its own (`fileRow`).
-/

import Packrat.Proofs.Language.Grammar
import Packrat.Proofs.Peg.Row
import Packrat.Typed.Category

namespace Packrat
namespace Language

open Peg

/-! ## Pieces of rows -/

/-- A node of a category. -/
def ofCategory (c : Category) : Row := .node (.ofList (Kind.all.filter c.accepts))

/-- An expression. -/
def anExpr : Row := ofCategory .expr

/-- A pattern. -/
def aPat : Row := ofCategory .pat

/-- A pattern that may have alternatives: a bar may stand before it. -/
def aPattern : Row := .seq (.opt (.leaf {.pipe})) aPat

/-- A type. -/
def aType : Row := ofCategory .type

/-- A leaf of a kind. -/
def aToken (kind : Kind) : Row := .leaf {kind}

/-- A node of a kind. -/
def aNode (kind : Kind) : Row := .node {kind}

/-- Rows one after the other. -/
def inOrder : List Row → Row
  | [] => .nil
  | [r] => r
  | r :: rs => r.join (inOrder rs)

/-- Nodes of some kinds with separators between them, in any number and order. -/
def listOf (separators kinds : List Kind) : Row :=
  .star (.one { leaves := .ofList separators, nodes := .ofList kinds })

/-- The same between two delimiters. -/
def listIn (opening closing : Kind) (separators kinds : List Kind) : Row :=
  inOrder [aToken opening, listOf separators kinds, aToken closing]

/-- Inner attributes and nodes of some kinds in braces. -/
def bodyOf (kinds : List Kind) : Row :=
  inOrder [aToken .lBrace, .star (aNode .innerAttr), .star (.node (.ofList kinds)),
    aToken .rBrace]

/-- The kinds of a category. -/
def kindsOf (c : Category) : List Kind := Kind.all.filter c.accepts

/-- What stands in a block before its tail: statements, some of them empty. -/
def statementSet : ChildSet where
  leaves := {.semicolon}
  nodes := .ofList (kindsOf .stmt)

/-- The kinds of tokens between the operands of a binary expression. -/
def operatorKinds : List Kind := levels.flatMap (·.operators)

/-! ## The table -/

/-- The row of the nodes of a kind. -/
def rowUnder : Kind → Option Row
  | .binExpr => some (inOrder [anExpr, .leaf (.ofList operatorKinds), anExpr])
  | .prefixExpr => some (inOrder [.leaf (.ofList [.minus, .bang, .star]), anExpr])
  | .refExpr => some (inOrder
      [aToken .amp, .star (.leaf (.ofList [.ident, .constKw, .mutKw])), anExpr])
  | .castExpr => some (inOrder [anExpr, aToken .asKw, aType])
  | .indexExpr => some (inOrder [anExpr, aToken .lBracket, anExpr, aToken .rBracket])
  | .callExpr => some (inOrder [anExpr, aNode .argList])
  | .methodCallExpr => some (inOrder
      [anExpr, aToken .dot, aNode .nameRef,
       .opt (inOrder [aToken .colonColon, aNode .genericArgList]), aNode .argList])
  | .blockExpr => some (inOrder
      [.opt (aNode .label), .star (.leaf (.ofList [.unsafeKw, .asyncKw, .moveKw, .constKw])),
       aToken .lBrace, .star (aNode .innerAttr), .star (.one statementSet), .opt anExpr,
       aToken .rBrace])
  | .exprStmt => some (inOrder [.star (aNode .attr), anExpr, .opt (aToken .semicolon)])
  | .letStmt => some (inOrder
      [.star (aNode .attr), aToken .letKw, aPattern, .opt (inOrder [aToken .colon, aType]),
       .opt (inOrder [aToken .eq, anExpr, .opt (aNode .letElse)]), aToken .semicolon])
  | .ifExpr => some (inOrder
      [aToken .ifKw, anExpr, aNode .blockExpr,
       .opt (inOrder [aToken .elseKw, .node (.ofList [.ifExpr, .blockExpr])])])
  | .loopExpr => some (inOrder [.opt (aNode .label), aToken .loopKw, aNode .blockExpr])
  | .whileExpr => some (inOrder
      [.opt (aNode .label), aToken .whileKw, anExpr, aNode .blockExpr])
  | .forExpr => some (inOrder
      [.opt (aNode .label), aToken .forKw, aPattern, aToken .inKw, anExpr, aNode .blockExpr])
  | .matchExpr => some (inOrder [aToken .matchKw, anExpr, aNode .matchArmList])
  | .matchArmList => some (bodyOf [.matchArm])
  | .matchArm => some (inOrder
      [.star (aNode .attr), aPattern, .opt (aNode .matchGuard), aToken .fatArrow, anExpr,
       .opt (aToken .comma)])
  | .letExpr => some (inOrder [aToken .letKw, aPattern, aToken .eq, anExpr])
  | .useTree => some (.alt
      (inOrder
        [.opt (inOrder [.opt (aNode .path), aToken .colonColon]),
         .one { leaves := {.star}, nodes := {.useTreeList} }])
      (inOrder [aNode .path, .opt (aNode .rename)]))
  | .useTreeList => some (listIn .lBrace .rBrace [.comma] [.useTree])
  | .itemList => some (bodyOf (kindsOf .item))
  | .assocItemList => some (bodyOf (kindsOf .assocItem))
  | .argList => some (listIn .lParen .rParen [.comma] (kindsOf .expr))
  | .tupleExpr => some (listIn .lParen .rParen [.comma] (kindsOf .expr))
  | .tupleType => some (listIn .lParen .rParen [.comma] (kindsOf .type))
  | .genericParamList => some (listIn .lt .gt [.comma] (kindsOf .genericParam))
  | .genericArgList => some (listIn .lt .gt [.comma] (kindsOf .genericArg))
  | .typeBoundList => some (listOf [.plus] [.typeBound])
  | .tuplePat => some (listIn .lParen .rParen [.comma, .pipe] (kindsOf .pat))
  | .slicePat => some (listIn .lBracket .rBracket [.comma, .pipe] (kindsOf .pat))
  | .orPat => some (listOf [.pipe] (kindsOf .pat))
  | .sourceFile => some (.leaf ∅)
  | _ => none

/-- **The rules keep to the rows.** -/
theorem lays_grammar {g : Grammar} (hg : grammar = .ok g) : g.lays rowUnder 24 = true := by
  have hall : coded.any (fun g => g.lays rowUnder 24) = true := by decide +kernel
  exact of_coded hall hg

/-- The row of a file. -/
def fileRow : Row := inOrder [.star (aNode .innerAttr), .star (ofCategory .item)]

/-- The rule for a file keeps to its row, also where the end of the text is asked for once more. -/
theorem lays_file {g : Grammar} (hg : grammar = .ok g) :
    ∀ root ∈ [Term.rule fileRule.name, .seq [.rule fileRule.name, .ended]],
      Row.isWithin 24 (root.row (g.rowOf 24)) fileRow = true := by
  have hall : coded.any (fun g =>
      [Term.rule fileRule.name, .seq [.rule fileRule.name, .ended]].all fun root =>
        Row.isWithin 24 (root.row (g.rowOf 24)) fileRow) = true := by
    decide +kernel
  exact List.all_eq_true.mp (of_coded hall hg)

end Language
end Packrat
