/-
# Items and types

The parts of declarations and of types.  In an implementation the first type is the trait
when `for` is there and the type itself otherwise.
-/

import Packrat.Typed.Name

namespace Packrat

/-! ## Files and modules -/

namespace SourceFile

/-- The items of the file. -/
def items (f : SourceFile) : List Item := f.node.views

/-- The attributes of the file. -/
def innerAttrs (f : SourceFile) : List InnerAttr := f.node.views

/-- The interpreter line that the file begins with. -/
def shebang? (f : SourceFile) : Option Located := f.node.leaves.head?.filter (·.kind == .shebang)

end SourceFile

namespace ItemList

/-- The items. -/
def items (l : ItemList) : List Item := l.node.views

end ItemList

namespace ModuleItem

/-- The body of the module. -/
def itemList? (m : ModuleItem) : Option ItemList := m.node.view?

/-- The module stands in another file. -/
def isOutOfLine (m : ModuleItem) : Bool := m.itemList?.isNone

end ModuleItem

namespace ExternBlock

/-- The foreign items. -/
def items (b : ExternBlock) : List Item :=
  (b.node.views : List ExternItemList).flatMap fun l => l.node.views

end ExternBlock

namespace Item

/-- Imports, implementations, blocks and macro calls have no name of their own. -/
def declares : Kind → Bool
  | .impl | .use | .externBlock | .externCrate | .macroCall => false
  | _ => true

/-- The name that an item declares. -/
def declaredName? (i : Item) : Option Name := if declares i.kind then i.name? else none

end Item

/-! ## Functions -/

namespace Abi

/-- The string that names the convention. -/
def string? (a : Abi) : Option Located :=
  a.node.tokens.find? fun t => t.kind == .string || t.kind == .rawString

end Abi

namespace ParamList

/-- The receiver. -/
def selfParam? (l : ParamList) : Option SelfParam := l.node.view?

/-- The other parameters. -/
def params (l : ParamList) : List Param := l.node.views

/-- The list is that of a closure: it stands between bars. -/
def isClosure (l : ParamList) : Bool :=
  l.node.firstToken?.any fun t => t.kind == .pipe || t.kind == .pipePipe

end ParamList

namespace Param

/-- Any number of arguments. -/
def isVariadic (p : Param) : Bool := p.node.has .dotDotDot

end Param

namespace SelfParam

/-- The receiver is borrowed. -/
def isRef (p : SelfParam) : Bool := p.node.has .amp

end SelfParam

/-! ## Generics -/

namespace GenericParamList

/-- The parameters. -/
def params (l : GenericParamList) : List GenericParam := l.node.views

end GenericParamList

namespace GenericArgList

/-- The arguments. -/
def args (l : GenericArgList) : List GenericArg := l.node.views

end GenericArgList

namespace WhereClause

/-- The conditions. -/
def predicates (c : WhereClause) : List WherePred := c.node.views

end WhereClause

namespace TypeBoundList

/-- The bounds. -/
def bounds (l : TypeBoundList) : List TypeBound := l.node.views

end TypeBoundList

namespace TypeBound

/-- The bound drops a default one. -/
def isMaybe (b : TypeBound) : Bool := b.node.has .question

end TypeBound

/-! ## Types that are declared -/

namespace RecordFieldList

/-- The fields. -/
def fields (l : RecordFieldList) : List RecordField := l.node.views

end RecordFieldList

namespace TupleFieldList

/-- The fields. -/
def fields (l : TupleFieldList) : List TupleField := l.node.views

end TupleFieldList

namespace StructItem

/-- The type has no fields. -/
def isUnit (s : StructItem) : Bool := s.recordFields?.isNone && s.tupleFields?.isNone

end StructItem

namespace VariantList

/-- The variants. -/
def variants (l : VariantList) : List Variant := l.node.views

end VariantList

namespace EnumItem

/-- The variants in braces. -/
def variantList? (e : EnumItem) : Option VariantList := e.node.view?

/-- The variants. -/
def variants (e : EnumItem) : List Variant := e.variantList?.elim [] (·.variants)

end EnumItem

/-! ## Traits and implementations -/

namespace AssocItemList

/-- The items. -/
def items (l : AssocItemList) : List AssocItem := l.node.views

end AssocItemList

namespace TraitItem

/-- The trait is another name for bounds. -/
def isAlias (t : TraitItem) : Bool := t.node.has .eq

end TraitItem

namespace ImplItem

/-- The type does not have the trait. -/
def isNegative (i : ImplItem) : Bool := i.node.has .bang

/-- The trait that is implemented. -/
def trait? (i : ImplItem) : Option Ty := if i.node.has .forKw then i.ty? else none

/-- The type that it is implemented for. -/
def selfType? (i : ImplItem) : Option Ty := if i.node.has .forKw then i.node.secondView? else i.ty?

end ImplItem

/-! ## Macros -/

namespace MacroCall

/-- The last name of the macro's path. -/
def lastName? (c : MacroCall) : Option String := do
  let p ← c.path?
  let s ← p.segments.getLast?
  s.nameRef?.map NameRef.text

end MacroCall

namespace MacroRules

/-- The rules of the macro. -/
def rules (m : MacroRules) : List MacroRule := m.node.views

end MacroRules

namespace MacroRule

/-- What the rule matches. -/
def matcher? (r : MacroRule) : Option TokenTree :=
  (r.node.view? : Option MacroMatcher).bind (·.tokenTree?)

/-- What the rule expands to. -/
def transcriber? (r : MacroRule) : Option TokenTree :=
  (r.node.view? : Option MacroTranscriber).bind (·.tokenTree?)

end MacroRule

/-! ## Types that are used -/

namespace ArrayType

/-- The length: the first expression behind the first type. -/
def length? (t : ArrayType) : Option Expr :=
  ((t.node.nodes.dropWhile (!Category.acceptsType ·.kind)).drop 1).findSome? Located.as?

end ArrayType

namespace DynTraitType

/-- The bounds stand there without `dyn`. -/
def isBare (t : DynTraitType) : Bool := !t.node.has .dynKw

end DynTraitType
end Packrat
