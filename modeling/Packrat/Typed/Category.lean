/-
# Categories of nodes

A category holds the kinds of nodes that may stand in one grammatical position.  A macro
call stands for an item, an expression, a pattern or a type; in a block it is never an
item, because it is wrapped in an expression statement or is the tail of the block.
-/

import Packrat.Kind

namespace Packrat

/-- A grammatical position that several kinds of nodes can fill. -/
inductive Category where
  | item | assocItem | stmt | expr | pat | type | genericParam | genericArg
  deriving DecidableEq, Repr

namespace Category

/-- Every category. -/
def all : List Category := [item, assocItem, stmt, expr, pat, type, genericParam, genericArg]

/-- The name of a category. -/
def tag : Category → String
  | item => "Item"
  | assocItem => "AssocItem"
  | stmt => "Stmt"
  | expr => "Expr"
  | pat => "Pat"
  | type => "Type"
  | genericParam => "GenericParam"
  | genericArg => "GenericArg"

/-- What can be declared in a module. -/
def acceptsItem : Kind → Bool
  | .fn | .struct | .enum | .union | .trait | .impl | .moduleItem | .use | .externCrate
  | .typeAlias | .const | .static | .externBlock | .macroRules | .macroCall => true
  | _ => false

/-- What can be declared in a trait or an implementation. -/
def acceptsAssocItem : Kind → Bool
  | .fn | .typeAlias | .const | .macroCall => true
  | _ => false

/-- What can stand in a block before its tail. -/
def acceptsStmt : Kind → Bool
  | .letStmt | .exprStmt => true
  | .macroCall => false
  | k => acceptsItem k

/-- What has a value. -/
def acceptsExpr : Kind → Bool
  | .literal | .pathExpr | .tupleExpr | .arrayExpr | .parenExpr | .blockExpr | .closureExpr
  | .ifExpr | .letExpr | .loopExpr | .whileExpr | .forExpr | .breakExpr | .continueExpr
  | .returnExpr | .matchExpr | .recordExpr | .callExpr | .methodCallExpr | .fieldExpr
  | .awaitExpr | .tryExpr | .indexExpr | .castExpr | .prefixExpr | .refExpr | .binExpr
  | .rangeExpr | .rangeFromExpr | .rangeToExpr | .rangeFullExpr | .macroCall => true
  | _ => false

/-- What a value is matched against. -/
def acceptsPat : Kind → Bool
  | .identPat | .wildcardPat | .restPat | .literalPat | .rangePat | .refPat | .recordPat
  | .tupleStructPat | .tuplePat | .slicePat | .parenPat | .pathPat | .orPat | .macroCall => true
  | _ => false

/-- What a value is an instance of. -/
def acceptsType : Kind → Bool
  | .pathType | .tupleType | .neverType | .ptrType | .refType | .arrayType | .sliceType
  | .inferType | .fnPtrType | .implTraitType | .dynTraitType | .parenType | .macroCall => true
  | _ => false

/-- What a generic item is abstracted over. -/
def acceptsGenericParam : Kind → Bool
  | .lifetimeParam | .typeParam | .constParam => true
  | _ => false

/-- What a generic item is applied to. -/
def acceptsGenericArg : Kind → Bool
  | .typeArg | .lifetimeArg | .constArg | .assocTypeArg => true
  | _ => false

/-- The kinds of a category. -/
def accepts : Category → Kind → Bool
  | item => acceptsItem
  | assocItem => acceptsAssocItem
  | stmt => acceptsStmt
  | expr => acceptsExpr
  | pat => acceptsPat
  | type => acceptsType
  | genericParam => acceptsGenericParam
  | genericArg => acceptsGenericArg

/-- The categories that a kind belongs to. -/
def ofKind (k : Kind) : List Category := all.filter (·.accepts k)

end Category
end Packrat
