/-
# The parts of a node by name

What can be said of a node of each type, part by part.  A part that is not there, a mark
that does not hold and an empty list of nodes are left out.
-/

import Packrat.Typed.Comment
import Packrat.Typed.Expression
import Packrat.Typed.Import
import Packrat.Typed.Item
import Packrat.Typed.Pattern

namespace Packrat

/-- What a part of a node can be. -/
inductive PartValue where
  | node (n : Located)
  | nodes (ns : List Located)
  | token (t : Located)
  | tokens (ts : List Located)
  | text (s : String)
  | texts (ss : List String)
  | mark

/-- What is shown of a value, if anything. -/
class Shown (α : Type) where
  value? : α → Option PartValue

namespace Shown

variable {accepts : Kind → Bool}

instance : Shown (Option (View accepts)) := ⟨fun v => v.map fun v => .node v.node⟩

instance : Shown (List (View accepts)) :=
  ⟨fun vs => if vs.isEmpty then none else some (.nodes (vs.map View.node))⟩

instance : Shown (Option (List (View accepts))) :=
  ⟨fun o => o.map fun vs => .nodes (vs.map View.node)⟩

instance : Shown (Option Located) := ⟨fun t => t.map .token⟩

instance : Shown (List Located) := ⟨fun ts => some (.tokens ts)⟩

instance : Shown String := ⟨fun s => some (.text s)⟩

instance : Shown (Option String) := ⟨fun s => s.map .text⟩

instance : Shown (List String) := ⟨fun ss => some (.texts ss)⟩

instance : Shown (Option Kind) := ⟨fun k => k.map fun k => .text k.tag⟩

instance : Shown (Option LiteralForm) := ⟨fun f => f.map fun f => .text f.tag⟩

instance : Shown (Option BinaryOp) := ⟨fun o => o.map fun o => .text o.tag⟩

instance : Shown (Option UnaryOp) := ⟨fun o => o.map fun o => .text o.tag⟩

instance : Shown Visibility.Scope := ⟨fun s => some (.text s.tag)⟩

instance : Shown Bool := ⟨fun b => if b then some .mark else none⟩

end Shown

/-- A part with its name, if anything of it is shown. -/
def part {α : Type} [Shown α] (name : String) (value : α) : List (String × PartValue) :=
  (Shown.value? value).toList.map (name, ·)

/-- The parts of a node that has a type; none of any other node. -/
def partsOf {accepts : Kind → Bool} (parts : View accepts → List (List (String × PartValue)))
    (n : Located) : List (String × PartValue) :=
  (n.as?.elim [] parts).flatten

/-- The parts of names, paths, attributes. -/
def nameParts (n : Located) : List (String × PartValue) :=
  partsOf (fun v : SourceFile => [part "items" v.items, part "inner_attrs" v.innerAttrs,
    part "shebang" v.shebang?]) n ++
  partsOf (fun v : Name => [part "ident_token" v.identifier?, part "text" v.text]) n ++
  partsOf (fun v : NameRef => [part "token" v.token?, part "text" v.text, part "is_self" v.isSelf,
    part "is_super" v.isSuper, part "is_crate" v.isCrate]) n ++
  partsOf (fun v : Label => [part "lifetime" v.lifetime?]) n ++
  partsOf (fun v : Attr => [part "meta" v.attrBody?, part "name" v.attrName?]) n ++
  partsOf (fun v : InnerAttr => [part "meta" v.attrBody?, part "name" v.attrName?]) n ++
  partsOf (fun v : AttrBody => [part "path" v.path?, part "token_tree" v.tokenTree?,
    part "value" v.expr?, part "is_unsafe" v.isUnsafe]) n ++
  partsOf (fun v : TokenTree => [part "delimiter" v.delimiter?, part "subtrees" v.subtrees,
    part "tokens" v.tokens]) n ++
  partsOf (fun v : Visibility => [part "path" v.path?, part "kind" v.scope]) n ++
  partsOf (fun v : Path => [part "segments" v.segments, part "qualifier" v.qualifier?,
    part "is_global" v.isGlobal, part "text" v.text, part "as_single_name" v.singleName?]) n ++
  partsOf (fun v : PathSegment => [part "name_ref" v.nameRef?,
    part "generic_arg_list" v.genericArgList?, part "ret_type" v.retType?,
    part "paren_args" v.parenArgs?, part "has_turbofish" v.hasTurbofish]) n ++
  partsOf (fun v : QualifiedPathType => [part "self_ty" v.ty?, part "trait_path" v.traitPath?]) n

/-- The parts of items. -/
def itemParts (n : Located) : List (String × PartValue) :=
  partsOf (fun v : Fn => [part "name" v.name?, part "visibility" v.visibility?,
    part "generic_param_list" v.genericParamList?, part "param_list" v.paramList?,
    part "ret_type" v.retType?, part "where_clause" v.whereClause?, part "abi" v.abi?,
    part "attrs" v.attrs, part "body" v.block?, part "is_const" v.isConst,
    part "is_async" v.isAsync, part "is_unsafe" v.isUnsafe]) n ++
  partsOf (fun v : Abi => [part "abi_string" v.string?]) n ++
  partsOf (fun v : ParamList => [part "self_param" v.selfParam?, part "params" v.params,
    part "is_closure" v.isClosure]) n ++
  partsOf (fun v : Param => [part "pat" v.pat?, part "ty" v.ty?,
    part "is_variadic" v.isVariadic]) n ++
  partsOf (fun v : SelfParam => [part "ty" v.ty?, part "is_mut" v.isMut,
    part "lifetime" v.lifetime?, part "is_ref" v.isRef]) n ++
  partsOf (fun v : RetType => [part "ty" v.ty?]) n ++
  partsOf (fun v : WhereClause => [part "predicates" v.predicates]) n ++
  partsOf (fun v : WherePred => [part "for_lifetimes" v.forLifetimes?, part "ty" v.ty?,
    part "bounds" v.bounds?, part "lifetime" v.lifetime?]) n ++
  partsOf (fun v : StructItem => [part "name" v.name?, part "visibility" v.visibility?,
    part "generic_param_list" v.genericParamList?, part "where_clause" v.whereClause?,
    part "record_fields" v.recordFields?, part "tuple_fields" v.tupleFields?,
    part "attrs" v.attrs, part "is_unit" v.isUnit]) n ++
  partsOf (fun v : UnionItem => [part "name" v.name?, part "visibility" v.visibility?,
    part "record_fields" v.recordFields?]) n ++
  partsOf (fun v : RecordFieldList => [part "fields" v.fields]) n ++
  partsOf (fun v : RecordField => [part "name" v.name?, part "visibility" v.visibility?,
    part "ty" v.ty?, part "default_value" v.assignedExpr?]) n ++
  partsOf (fun v : TupleFieldList => [part "fields" v.fields]) n ++
  partsOf (fun v : TupleField => [part "visibility" v.visibility?, part "ty" v.ty?]) n ++
  partsOf (fun v : EnumItem => [part "name" v.name?, part "visibility" v.visibility?,
    part "generic_param_list" v.genericParamList?, part "variant_list" v.variantList?,
    part "variants" v.variants]) n ++
  partsOf (fun v : VariantList => [part "variants" v.variants]) n ++
  partsOf (fun v : Variant => [part "name" v.name?, part "record_fields" v.recordFields?,
    part "tuple_fields" v.tupleFields?, part "discriminant" v.assignedExpr?]) n ++
  partsOf (fun v : TypeAlias => [part "name" v.name?, part "visibility" v.visibility?,
    part "generic_param_list" v.genericParamList?, part "bounds" v.bounds?,
    part "ty" v.assignedType?]) n ++
  partsOf (fun v : ConstItem => [part "name" v.name?, part "visibility" v.visibility?,
    part "ty" v.declaredType?, part "body" v.assignedExpr?]) n ++
  partsOf (fun v : StaticItem => [part "name" v.name?, part "visibility" v.visibility?,
    part "ty" v.declaredType?, part "body" v.assignedExpr?, part "is_mut" v.isMut]) n ++
  partsOf (fun v : TraitItem => [part "name" v.name?, part "visibility" v.visibility?,
    part "generic_param_list" v.genericParamList?, part "bounds" v.bounds?,
    part "where_clause" v.whereClause?, part "assoc_item_list" v.assocItemList?,
    part "is_unsafe" v.isUnsafe, part "is_alias" v.isAlias]) n ++
  partsOf (fun v : ImplItem => [part "generic_param_list" v.genericParamList?,
    part "where_clause" v.whereClause?, part "assoc_item_list" v.assocItemList?,
    part "is_unsafe" v.isUnsafe, part "is_negative" v.isNegative, part "trait_" v.trait?,
    part "self_ty" v.selfType?]) n ++
  partsOf (fun v : AssocItemList => [part "items" v.items]) n ++
  partsOf (fun v : ModuleItem => [part "name" v.name?, part "visibility" v.visibility?,
    part "item_list" v.itemList?, part "is_out_of_line" v.isOutOfLine]) n ++
  partsOf (fun v : ItemList => [part "items" v.items]) n ++
  partsOf (fun v : ExternCrate => [part "name_ref" v.nameRef?, part "rename" v.rename?]) n ++
  partsOf (fun v : Rename => [part "name" v.name?]) n ++
  partsOf (fun v : ExternBlock => [part "abi" v.abi?, part "items" v.items]) n ++
  partsOf (fun v : Use => [part "visibility" v.visibility?, part "use_tree" v.useTree?]) n ++
  partsOf (fun v : UseTree => [part "path" v.path?, part "rename" v.rename?,
    part "use_tree_list" v.useTreeList?, part "is_glob" v.isGlob, part "flatten" v.flatten]) n ++
  partsOf (fun v : UseTreeList => [part "use_trees" v.useTrees]) n ++
  partsOf (fun v : MacroCall => [part "path" v.path?, part "token_tree" v.tokenTree?,
    part "attrs" v.attrs, part "name" v.lastName?]) n ++
  partsOf (fun v : MacroRules => [part "name" v.name?, part "visibility" v.visibility?,
    part "rules" v.rules]) n ++
  partsOf (fun v : MacroRule => [part "matcher" v.matcher?, part "transcriber" v.transcriber?]) n

/-- The parts of types and generics. -/
def typeParts (n : Located) : List (String × PartValue) :=
  partsOf (fun v : GenericParamList => [part "params" v.params]) n ++
  partsOf (fun v : LifetimeParam => [part "lifetime" v.lifetime?]) n ++
  partsOf (fun v : TypeParam => [part "name" v.name?, part "bounds" v.bounds?,
    part "default_type" v.assignedType?]) n ++
  partsOf (fun v : ConstParam => [part "name" v.name?, part "ty" v.ty?]) n ++
  partsOf (fun v : GenericArgList => [part "args" v.args]) n ++
  partsOf (fun v : TypeArg => [part "ty" v.ty?]) n ++
  partsOf (fun v : LifetimeArg => [part "lifetime" v.lifetime?]) n ++
  partsOf (fun v : ConstArg => [part "expr" v.expr?]) n ++
  partsOf (fun v : AssocTypeArg => [part "name_ref" v.nameRef?, part "ty" v.ty?,
    part "bounds" v.bounds?]) n ++
  partsOf (fun v : PathType => [part "path" v.path?]) n ++
  partsOf (fun v : TupleType => [part "fields" v.types]) n ++
  partsOf (fun v : PtrType => [part "ty" v.ty?, part "is_mut" v.isMut,
    part "is_const" v.isConst]) n ++
  partsOf (fun v : RefType => [part "ty" v.ty?, part "lifetime" v.lifetime?,
    part "is_mut" v.isMut]) n ++
  partsOf (fun v : ArrayType => [part "ty" v.ty?, part "length" v.length?]) n ++
  partsOf (fun v : SliceType => [part "ty" v.ty?]) n ++
  partsOf (fun v : ParenType => [part "ty" v.ty?]) n ++
  partsOf (fun v : FnPtrType => [part "param_list" v.paramList?, part "ret_type" v.retType?,
    part "abi" v.abi?, part "is_unsafe" v.isUnsafe]) n ++
  partsOf (fun v : ImplTraitType => [part "bounds" v.bounds?]) n ++
  partsOf (fun v : DynTraitType => [part "bounds" v.bounds?, part "is_bare" v.isBare]) n ++
  partsOf (fun v : TypeBoundList => [part "bounds" v.bounds]) n ++
  partsOf (fun v : TypeBound => [part "path" v.path?, part "for_lifetimes" v.forLifetimes?,
    part "lifetime" v.lifetime?, part "is_maybe" v.isMaybe]) n ++
  partsOf (fun v : ForLifetimes => [part "generic_param_list" v.genericParamList?]) n

/-- The parts of patterns. -/
def patternParts (n : Located) : List (String × PartValue) :=
  partsOf (fun v : IdentPat => [part "name" v.name?, part "is_ref" v.isRef, part "is_mut" v.isMut,
    part "subpattern" v.pat?]) n ++
  partsOf (fun v : LiteralPat => [part "literal" v.literal?, part "is_negative" v.isNegative]) n ++
  partsOf (fun v : RangePat => [part "start" v.start?, part "end" v.stop?,
    part "is_inclusive" v.isInclusive]) n ++
  partsOf (fun v : RefPat => [part "pat" v.pat?, part "is_mut" v.isMut]) n ++
  partsOf (fun v : RecordPat => [part "path" v.path?, part "field_list" v.fieldList?]) n ++
  partsOf (fun v : RecordPatFieldList => [part "fields" v.fields, part "rest_pat" v.rest?]) n ++
  partsOf (fun v : RecordPatField => [part "name_ref" v.nameRef?, part "pat" v.pat?,
    part "field_name" v.fieldName?]) n ++
  partsOf (fun v : TupleStructPat => [part "path" v.path?, part "fields" v.pats]) n ++
  partsOf (fun v : TuplePat => [part "fields" v.pats]) n ++
  partsOf (fun v : SlicePat => [part "elements" v.pats]) n ++
  partsOf (fun v : ParenPat => [part "pat" v.pat?]) n ++
  partsOf (fun v : PathPat => [part "path" v.path?]) n ++
  partsOf (fun v : OrPat => [part "alternatives" v.pats]) n

/-- The parts of expressions and statements. -/
def expressionParts (n : Located) : List (String × PartValue) :=
  partsOf (fun v : Literal => [part "token" v.token?, part "kind" v.form?]) n ++
  partsOf (fun v : PathExpr => [part "path" v.path?]) n ++
  partsOf (fun v : BinExpr => [part "lhs" v.lhs?, part "rhs" v.rhs?, part "op_token" v.opToken?,
    part "op" v.op?, part "op_is_assignment" (v.op?.any (·.isAssignment)),
    part "op_is_comparison" (v.op?.any (·.isComparison))]) n ++
  partsOf (fun v : PrefixExpr => [part "expr" v.expr?, part "op" v.op?]) n ++
  partsOf (fun v : RefExpr => [part "expr" v.expr?, part "is_mut" v.isMut,
    part "is_raw" v.isRaw]) n ++
  partsOf (fun v : CastExpr => [part "expr" v.expr?, part "ty" v.target?]) n ++
  partsOf (fun v : RangeExpr => [part "start" v.start?, part "end" v.stop?,
    part "is_inclusive" v.isInclusive]) n ++
  partsOf (fun v : CallExpr => [part "expr" v.expr?, part "arg_list" v.argList?]) n ++
  partsOf (fun v : ArgList => [part "args" v.exprs]) n ++
  partsOf (fun v : MethodCallExpr => [part "receiver" v.expr?, part "name_ref" v.nameRef?,
    part "generic_arg_list" v.genericArgList?, part "arg_list" v.argList?]) n ++
  partsOf (fun v : FieldExpr => [part "expr" v.expr?, part "name_ref" v.nameRef?]) n ++
  partsOf (fun v : AwaitExpr => [part "expr" v.expr?]) n ++
  partsOf (fun v : TryExpr => [part "expr" v.expr?]) n ++
  partsOf (fun v : IndexExpr => [part "base" v.expr?, part "index" v.secondExpr?]) n ++
  partsOf (fun v : ParenExpr => [part "expr" v.expr?]) n ++
  partsOf (fun v : TupleExpr => [part "fields" v.exprs]) n ++
  partsOf (fun v : ArrayExpr => [part "elements" v.exprs, part "is_repeat" v.isRepeat]) n ++
  partsOf (fun v : RecordExpr => [part "path" v.path?, part "field_list" v.fieldList?]) n ++
  partsOf (fun v : RecordExprFieldList => [part "fields" v.fields, part "spread" v.spread?]) n ++
  partsOf (fun v : RecordExprField => [part "name_ref" v.nameRef?, part "expr" v.expr?]) n ++
  partsOf (fun v : ClosureExpr => [part "param_list" v.paramList?, part "ret_type" v.retType?,
    part "body" v.expr?, part "is_move" v.isMove, part "is_async" v.isAsync]) n ++
  partsOf (fun v : ReturnExpr => [part "expr" v.expr?]) n ++
  partsOf (fun v : BreakExpr => [part "lifetime" v.lifetime?, part "expr" v.expr?]) n ++
  partsOf (fun v : ContinueExpr => [part "lifetime" v.lifetime?]) n ++
  partsOf (fun v : BlockExpr => [part "label" v.label?, part "statements" v.statements,
    part "is_unsafe" v.isUnsafe, part "is_async" v.isAsync, part "is_const" v.isConst,
    part "tail_expr" v.tail?]) n ++
  partsOf (fun v : IfExpr => [part "condition" v.expr?, part "then_branch" v.thenBranch?,
    part "else_branch" v.elseBranch?]) n ++
  partsOf (fun v : LetExpr => [part "pat" v.pat?, part "expr" v.assignedExpr?]) n ++
  partsOf (fun v : LoopExpr => [part "label" v.label?, part "body" v.block?]) n ++
  partsOf (fun v : WhileExpr => [part "label" v.label?, part "condition" v.expr?,
    part "body" v.body?]) n ++
  partsOf (fun v : ForExpr => [part "label" v.label?, part "pat" v.pat?,
    part "iterable" v.iterable?, part "body" v.body?]) n ++
  partsOf (fun v : MatchExpr => [part "expr" v.expr?, part "arm_list" v.armList?,
    part "arms" v.arms]) n ++
  partsOf (fun v : MatchArmList => [part "arms" v.arms]) n ++
  partsOf (fun v : MatchArm => [part "pat" v.pat?, part "guard" v.guard?,
    part "expr" v.value?]) n ++
  partsOf (fun v : MatchGuard => [part "condition" v.expr?]) n ++
  partsOf (fun v : LetStmt => [part "pat" v.pat?, part "ty" v.declaredType?,
    part "initializer" v.assignedExpr?, part "let_else" v.letElse?]) n ++
  partsOf (fun v : LetElse => [part "block" v.block?]) n ++
  partsOf (fun v : ExprStmt => [part "expr" v.expr?, part "has_semicolon" v.hasSemicolon]) n

/-- What an item has whatever its type. -/
def commonItemParts (n : Located) : List (String × PartValue) :=
  partsOf (fun v : Item => [part "item_name" v.declaredName?, part "item_visibility" v.visibility?,
    part "item_attrs" v.attrs, part "item_doc" v.node.doc?]) n

/-- What an expression has whatever its type. -/
def commonExprParts (n : Located) : List (String × PartValue) :=
  partsOf (fun v : Expr => [part "expr_block_like" v.isBlockLike]) n

namespace Located

/-- The parts of a node. -/
def parts (n : Located) : List (String × PartValue) :=
  nameParts n ++ itemParts n ++ typeParts n ++ patternParts n ++ expressionParts n ++
    commonItemParts n ++ commonExprParts n

end Located
end Packrat
