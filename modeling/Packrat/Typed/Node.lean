/-
# The types of nodes

One type for every kind of node whose parts have names, and one for each category.  The
four kinds of ranges share a type.
-/

import Packrat.Typed.View

namespace Packrat

/-- A node that a module can declare. -/
abbrev Item := View Category.acceptsItem
/-- A node that a trait or an implementation can declare. -/
abbrev AssocItem := View Category.acceptsAssocItem
/-- A node that stands in a block before its tail. -/
abbrev Stmt := View Category.acceptsStmt
/-- A node that has a value. -/
abbrev Expr := View Category.acceptsExpr
/-- A node that values are matched against. -/
abbrev Pat := View Category.acceptsPat
/-- A node that is a type. -/
abbrev Ty := View Category.acceptsType
/-- A node that is a generic parameter. -/
abbrev GenericParam := View Category.acceptsGenericParam
/-- A node that is a generic argument. -/
abbrev GenericArg := View Category.acceptsGenericArg

/-- The kinds of ranges. -/
def acceptsRange : Kind → Bool
  | .rangeExpr | .rangeFromExpr | .rangeToExpr | .rangeFullExpr => true
  | _ => false

/-- A whole file. -/
abbrev SourceFile := View (only .sourceFile)
/-- An attribute of what follows. -/
abbrev Attr := View (only .attr)
/-- An attribute of what it stands in. -/
abbrev InnerAttr := View (only .innerAttr)
/-- What stands in the brackets of an attribute. -/
abbrev AttrBody := View (only .metaItem)
/-- A bracketed group of tokens. -/
abbrev TokenTree := View (only .tokenTree)
/-- Where an item can be seen. -/
abbrev Visibility := View (only .visibility)
/-- A name that is declared. -/
abbrev Name := View (only .name)
/-- A name that is used. -/
abbrev NameRef := View (only .nameRef)
/-- The label of a loop or a block. -/
abbrev Label := View (only .label)
/-- A module. -/
abbrev ModuleItem := View (only .moduleItem)
/-- The body of a module. -/
abbrev ItemList := View (only .itemList)
/-- A link to another library. -/
abbrev ExternCrate := View (only .externCrate)
/-- A new name for an import. -/
abbrev Rename := View (only .rename)
/-- An import. -/
abbrev Use := View (only .use)
/-- A tree of imported paths. -/
abbrev UseTree := View (only .useTree)
/-- The branches of a tree of imported paths. -/
abbrev UseTreeList := View (only .useTreeList)
/-- A function. -/
abbrev Fn := View (only .fn)
/-- A calling convention. -/
abbrev Abi := View (only .abi)
/-- The parameters of a function or a closure. -/
abbrev ParamList := View (only .paramList)
/-- A parameter. -/
abbrev Param := View (only .param)
/-- The receiver of a method. -/
abbrev SelfParam := View (only .selfParam)
/-- The type of a result. -/
abbrev RetType := View (only .retType)
/-- Another name for a type. -/
abbrev TypeAlias := View (only .typeAlias)
/-- A record type. -/
abbrev StructItem := View (only .struct)
/-- The fields of a record type. -/
abbrev RecordFieldList := View (only .recordFieldList)
/-- A field of a record type. -/
abbrev RecordField := View (only .recordField)
/-- The unnamed fields of a record type. -/
abbrev TupleFieldList := View (only .tupleFieldList)
/-- An unnamed field of a record type. -/
abbrev TupleField := View (only .tupleField)
/-- A type of variants. -/
abbrev EnumItem := View (only .enum)
/-- The variants of a type. -/
abbrev VariantList := View (only .variantList)
/-- A variant of a type. -/
abbrev Variant := View (only .variant)
/-- An untagged union. -/
abbrev UnionItem := View (only .union)
/-- A constant. -/
abbrev ConstItem := View (only .const)
/-- A static variable. -/
abbrev StaticItem := View (only .static)
/-- A trait. -/
abbrev TraitItem := View (only .trait)
/-- The body of a trait or an implementation. -/
abbrev AssocItemList := View (only .assocItemList)
/-- An implementation. -/
abbrev ImplItem := View (only .impl)
/-- A block of foreign items. -/
abbrev ExternBlock := View (only .externBlock)
/-- The body of a block of foreign items. -/
abbrev ExternItemList := View (only .externItemList)
/-- A macro call. -/
abbrev MacroCall := View (only .macroCall)
/-- The definition of a macro. -/
abbrev MacroRules := View (only .macroRules)
/-- A rule of a macro. -/
abbrev MacroRule := View (only .macroRule)
/-- What a rule of a macro matches. -/
abbrev MacroMatcher := View (only .macroMatcher)
/-- What a rule of a macro expands to. -/
abbrev MacroTranscriber := View (only .macroTranscriber)
/-- Generic parameters. -/
abbrev GenericParamList := View (only .genericParamList)
/-- A lifetime as a parameter. -/
abbrev LifetimeParam := View (only .lifetimeParam)
/-- A type as a parameter. -/
abbrev TypeParam := View (only .typeParam)
/-- A constant as a parameter. -/
abbrev ConstParam := View (only .constParam)
/-- Conditions on generic parameters. -/
abbrev WhereClause := View (only .whereClause)
/-- A condition on a generic parameter. -/
abbrev WherePred := View (only .wherePred)
/-- Bounds of a type. -/
abbrev TypeBoundList := View (only .typeBoundList)
/-- A bound of a type. -/
abbrev TypeBound := View (only .typeBound)
/-- Lifetimes that a bound holds for. -/
abbrev ForLifetimes := View (only .forLifetimes)
/-- A path. -/
abbrev Path := View (only .path)
/-- A segment of a path. -/
abbrev PathSegment := View (only .pathSegment)
/-- The type that a path starts from. -/
abbrev QualifiedPathType := View (only .qualifiedPathType)
/-- Generic arguments. -/
abbrev GenericArgList := View (only .genericArgList)
/-- A type as an argument. -/
abbrev TypeArg := View (only .typeArg)
/-- A lifetime as an argument. -/
abbrev LifetimeArg := View (only .lifetimeArg)
/-- A constant as an argument. -/
abbrev ConstArg := View (only .constArg)
/-- A condition on an associated type. -/
abbrev AssocTypeArg := View (only .assocTypeArg)
/-- Argument types in parentheses. -/
abbrev ParenArgList := View (only .parenArgList)
/-- A named type. -/
abbrev PathType := View (only .pathType)
/-- A tuple type. -/
abbrev TupleType := View (only .tupleType)
/-- A pointer type. -/
abbrev PtrType := View (only .ptrType)
/-- A reference type. -/
abbrev RefType := View (only .refType)
/-- An array type. -/
abbrev ArrayType := View (only .arrayType)
/-- A slice type. -/
abbrev SliceType := View (only .sliceType)
/-- The type of a function. -/
abbrev FnPtrType := View (only .fnPtrType)
/-- An unnamed type with bounds. -/
abbrev ImplTraitType := View (only .implTraitType)
/-- A type of values behind a trait. -/
abbrev DynTraitType := View (only .dynTraitType)
/-- A type in parentheses. -/
abbrev ParenType := View (only .parenType)
/-- A literal as a pattern. -/
abbrev LiteralPat := View (only .literalPat)
/-- A pattern that binds a name. -/
abbrev IdentPat := View (only .identPat)
/-- The rest of a list of patterns. -/
abbrev RestPat := View (only .restPat)
/-- A range as a pattern. -/
abbrev RangePat := View (only .rangePat)
/-- A pattern behind a reference. -/
abbrev RefPat := View (only .refPat)
/-- A pattern for a record. -/
abbrev RecordPat := View (only .recordPat)
/-- The fields of a pattern for a record. -/
abbrev RecordPatFieldList := View (only .recordPatFieldList)
/-- A field of a pattern for a record. -/
abbrev RecordPatField := View (only .recordPatField)
/-- A pattern for a record without field names. -/
abbrev TupleStructPat := View (only .tupleStructPat)
/-- A pattern for a tuple. -/
abbrev TuplePat := View (only .tuplePat)
/-- A pattern for a slice. -/
abbrev SlicePat := View (only .slicePat)
/-- A pattern in parentheses. -/
abbrev ParenPat := View (only .parenPat)
/-- A path as a pattern. -/
abbrev PathPat := View (only .pathPat)
/-- A choice of patterns. -/
abbrev OrPat := View (only .orPat)
/-- A literal. -/
abbrev Literal := View (only .literal)
/-- A path as an expression. -/
abbrev PathExpr := View (only .pathExpr)
/-- A tuple. -/
abbrev TupleExpr := View (only .tupleExpr)
/-- An array. -/
abbrev ArrayExpr := View (only .arrayExpr)
/-- An expression in parentheses. -/
abbrev ParenExpr := View (only .parenExpr)
/-- A block. -/
abbrev BlockExpr := View (only .blockExpr)
/-- A closure. -/
abbrev ClosureExpr := View (only .closureExpr)
/-- A conditional. -/
abbrev IfExpr := View (only .ifExpr)
/-- A pattern match as a condition. -/
abbrev LetExpr := View (only .letExpr)
/-- A loop without a condition. -/
abbrev LoopExpr := View (only .loopExpr)
/-- A loop with a condition. -/
abbrev WhileExpr := View (only .whileExpr)
/-- A loop over a sequence. -/
abbrev ForExpr := View (only .forExpr)
/-- A jump out of a loop or a block. -/
abbrev BreakExpr := View (only .breakExpr)
/-- A jump to the next round of a loop. -/
abbrev ContinueExpr := View (only .continueExpr)
/-- A jump out of a function. -/
abbrev ReturnExpr := View (only .returnExpr)
/-- A choice by patterns. -/
abbrev MatchExpr := View (only .matchExpr)
/-- The arms of a choice by patterns. -/
abbrev MatchArmList := View (only .matchArmList)
/-- An arm of a choice by patterns. -/
abbrev MatchArm := View (only .matchArm)
/-- The condition of an arm. -/
abbrev MatchGuard := View (only .matchGuard)
/-- A record. -/
abbrev RecordExpr := View (only .recordExpr)
/-- The fields of a record. -/
abbrev RecordExprFieldList := View (only .recordExprFieldList)
/-- A field of a record. -/
abbrev RecordExprField := View (only .recordExprField)
/-- A call. -/
abbrev CallExpr := View (only .callExpr)
/-- The arguments of a call. -/
abbrev ArgList := View (only .argList)
/-- A method call. -/
abbrev MethodCallExpr := View (only .methodCallExpr)
/-- An access to a field. -/
abbrev FieldExpr := View (only .fieldExpr)
/-- A wait for a value. -/
abbrev AwaitExpr := View (only .awaitExpr)
/-- A value or an early return. -/
abbrev TryExpr := View (only .tryExpr)
/-- An access by index. -/
abbrev IndexExpr := View (only .indexExpr)
/-- A conversion to a type. -/
abbrev CastExpr := View (only .castExpr)
/-- An operator with one operand. -/
abbrev PrefixExpr := View (only .prefixExpr)
/-- A borrow. -/
abbrev RefExpr := View (only .refExpr)
/-- An operator with two operands. -/
abbrev BinExpr := View (only .binExpr)
/-- A range. -/
abbrev RangeExpr := View acceptsRange
/-- An expression as a statement. -/
abbrev ExprStmt := View (only .exprStmt)
/-- A declaration of variables. -/
abbrev LetStmt := View (only .letStmt)
/-- What a declaration does when its pattern does not match. -/
abbrev LetElse := View (only .letElse)

end Packrat
