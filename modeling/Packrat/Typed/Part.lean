/-
# Parts that many nodes have

Names, attributes, types, operands, marks: each part is found in the same way in every
node that has it.
-/

import Packrat.Typed.Node

namespace Packrat
namespace View

variable {accepts : Kind → Bool}

/-! ## Names and paths -/

/-- The name that is declared. -/
def name? (v : View accepts) : Option Name := v.node.view?

/-- The name that is used. -/
def nameRef? (v : View accepts) : Option NameRef := v.node.view?

/-- The path. -/
def path? (v : View accepts) : Option Path := v.node.view?

/-- The label. -/
def label? (v : View accepts) : Option Label := v.node.view?

/-- The lifetime. -/
def lifetime? (v : View accepts) : Option Located := v.node.token? .lifetime

/-- The new name of an import. -/
def rename? (v : View accepts) : Option Rename := v.node.view?

/-! ## What stands before an item -/

/-- The outer attributes. -/
def attrs (v : View accepts) : List Attr := v.node.views

/-- Where the item can be seen. -/
def visibility? (v : View accepts) : Option Visibility := v.node.view?

/-- The calling convention. -/
def abi? (v : View accepts) : Option Abi := v.node.view?

/-! ## Signatures -/

/-- The generic parameters. -/
def genericParamList? (v : View accepts) : Option GenericParamList := v.node.view?

/-- The generic arguments. -/
def genericArgList? (v : View accepts) : Option GenericArgList := v.node.view?

/-- The conditions on generic parameters. -/
def whereClause? (v : View accepts) : Option WhereClause := v.node.view?

/-- The lifetimes that a bound holds for. -/
def forLifetimes? (v : View accepts) : Option ForLifetimes := v.node.view?

/-- The bounds. -/
def bounds? (v : View accepts) : Option TypeBoundList := v.node.view?

/-- The parameters of a function. -/
def paramList? (v : View accepts) : Option ParamList := v.node.view?

/-- The type of the result. -/
def retType? (v : View accepts) : Option RetType := v.node.view?

/-- The body of a trait or an implementation. -/
def assocItemList? (v : View accepts) : Option AssocItemList := v.node.view?

/-- The named fields. -/
def recordFields? (v : View accepts) : Option RecordFieldList := v.node.view?

/-- The unnamed fields. -/
def tupleFields? (v : View accepts) : Option TupleFieldList := v.node.view?

/-- The token tree. -/
def tokenTree? (v : View accepts) : Option TokenTree := v.node.view?

/-! ## Types, patterns, expressions -/

/-- The first type. -/
def ty? (v : View accepts) : Option Ty := v.node.view?

/-- All types. -/
def types (v : View accepts) : List Ty := v.node.views

/-- The type behind the colon. -/
def declaredType? (v : View accepts) : Option Ty := v.node.viewAfter? .colon

/-- The type behind the equals sign. -/
def assignedType? (v : View accepts) : Option Ty := v.node.viewAfter? .eq

/-- The first pattern. -/
def pat? (v : View accepts) : Option Pat := v.node.view?

/-- All patterns. -/
def pats (v : View accepts) : List Pat := v.node.views

/-- The first expression. -/
def expr? (v : View accepts) : Option Expr := v.node.view?

/-- The second expression. -/
def secondExpr? (v : View accepts) : Option Expr := v.node.secondView?

/-- All expressions. -/
def exprs (v : View accepts) : List Expr := v.node.views

/-- The expression behind the equals sign. -/
def assignedExpr? (v : View accepts) : Option Expr := v.node.viewAfter? .eq

/-- The first block. -/
def block? (v : View accepts) : Option BlockExpr := v.node.view?

/-- The arguments of a call. -/
def argList? (v : View accepts) : Option ArgList := v.node.view?

/-! ## Marks -/

/-- The mark `mut` is there. -/
def isMut (v : View accepts) : Bool := v.node.has .mutKw

/-- The mark `const` is there. -/
def isConst (v : View accepts) : Bool := v.node.has .constKw

/-- The mark `unsafe` is there. -/
def isUnsafe (v : View accepts) : Bool := v.node.has .unsafeKw

/-- The mark `async` is there. -/
def isAsync (v : View accepts) : Bool := v.node.has .asyncKw

end View
end Packrat
