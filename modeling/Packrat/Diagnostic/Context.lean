/-
# Constructs named in messages

A grammar rule that opens a construct worth naming carries a context.  A failed parse
reports the innermost context that had read something before the failure.
-/

namespace Packrat

/-- The construct being parsed. -/
inductive Context where
  | topLevel | function | struct | enum | union | trait | impl | module | use | externBlock
  | typeAlias | constant | static | macroRules | attr | parameterList
  | genericParameters | whereClause | fieldList | block | letStatement | matchArm
  | argumentList | genericArguments | structLiteral | closure | macroCall
  deriving DecidableEq, Repr, Inhabited

namespace Context

/-- Every context. -/
def all : List Context :=
  [topLevel, function, struct, enum, union, trait, impl, module, use, externBlock, typeAlias,
   constant, static, macroRules, attr, parameterList, genericParameters, whereClause,
   fieldList, block, letStatement, matchArm, argumentList, genericArguments, structLiteral,
   closure, macroCall]

/-- The name of a context. -/
def tag : Context → String
  | topLevel => "TopLevel"
  | function => "Function"
  | struct => "Struct"
  | enum => "Enum"
  | union => "Union"
  | trait => "Trait"
  | impl => "Impl"
  | module => "Module"
  | use => "Use"
  | externBlock => "ExternBlock"
  | typeAlias => "TypeAlias"
  | constant => "Constant"
  | static => "Static"
  | macroRules => "MacroRules"
  | attr => "Attribute"
  | parameterList => "ParameterList"
  | genericParameters => "GenericParameters"
  | whereClause => "WhereClause"
  | fieldList => "FieldList"
  | block => "Block"
  | letStatement => "LetStatement"
  | matchArm => "MatchArm"
  | argumentList => "ArgumentList"
  | genericArguments => "GenericArguments"
  | structLiteral => "StructLiteral"
  | closure => "Closure"
  | macroCall => "MacroCall"

/-- The context of a name. -/
def ofTag? (t : String) : Option Context := all.find? (·.tag = t)

/-- Where a failure happened, in words. -/
def description : Context → String
  | topLevel => "at top level"
  | function => "in function"
  | struct => "in struct"
  | enum => "in enum"
  | union => "in union"
  | trait => "in trait"
  | impl => "in impl block"
  | module => "in module"
  | use => "in use declaration"
  | externBlock => "in extern block"
  | typeAlias => "in type alias"
  | constant => "in constant"
  | static => "in static"
  | macroRules => "in macro_rules definition"
  | attr => "in attribute"
  | parameterList => "in parameter list"
  | genericParameters => "in generic parameters"
  | whereClause => "in where clause"
  | fieldList => "in field list"
  | block => "in block"
  | letStatement => "in let statement"
  | matchArm => "in match arm"
  | argumentList => "in argument list"
  | genericArguments => "in generic arguments"
  | structLiteral => "in struct literal"
  | closure => "in closure"
  | macroCall => "in macro invocation"

/-- What a construct is made of, in words. -/
def contents : Context → String
  | topLevel | module => "an item (fn, struct, use, mod, ...)"
  | function => "a signature followed by a body or ';'"
  | struct | union | fieldList => "fields"
  | enum => "variants"
  | trait | impl => "associated items (fn, type, const)"
  | use => "a path, '*' or '\x7b...\x7d'"
  | externBlock => "foreign items (fn, static, type)"
  | typeAlias => "a type"
  | constant | static => "a type and an initializer"
  | macroRules => "macro rules of the form (...) => \x7b...\x7d"
  | attr => "a path with optional arguments"
  | parameterList => "a parameter"
  | genericParameters => "a lifetime, type or const parameter"
  | whereClause => "a bound predicate"
  | block => "a statement or expression"
  | letStatement => "a pattern with optional type and initializer"
  | matchArm => "a pattern, '=>' and an expression"
  | argumentList => "an argument"
  | genericArguments => "a lifetime, type or const argument"
  | structLiteral => "field initializers"
  | closure => "parameters and a body"
  | macroCall => "a delimited token tree"

/-- A construct that is an item. -/
def isItem : Context → Bool
  | function | struct | enum | union | trait | impl | module | use | externBlock | typeAlias
  | constant | static | macroRules => true
  | _ => false

/-- A construct that stands between two delimiters. -/
def isDelimited : Context → Bool
  | attr | parameterList | genericParameters | fieldList | block | argumentList
  | genericArguments | structLiteral => true
  | _ => false

/-- A construct whose parts are types rather than expressions. -/
def isTypePosition : Context → Bool
  | parameterList | genericParameters | genericArguments | whereClause | fieldList
  | typeAlias => true
  | _ => false

end Context
end Packrat
