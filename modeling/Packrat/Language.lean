/-
# The language

All rules of the language, linked into one grammar, and the constructs that can be parsed
on their own.
-/

import Packrat.Language.Block
import Packrat.Language.Bound
import Packrat.Language.Closure
import Packrat.Language.Definition
import Packrat.Language.Generic
import Packrat.Language.Item
import Packrat.Language.Macro
import Packrat.Language.Name
import Packrat.Language.Operator
import Packrat.Language.Path
import Packrat.Language.Pattern
import Packrat.Language.Primary
import Packrat.Language.Statement
import Packrat.Language.Trait
import Packrat.Language.Type
import Packrat.Peg.Grammar

namespace Packrat
namespace Language

open Peg

/-- A whole file: inner attributes, then items. -/
def fileRule : Rule where
  name := "source_file"
  body := .seq [.star (.rule "inner_attr"), .star (.rule "item"), .ended]

/-- Every rule, in the order of its number. -/
def rules : List Rule :=
  nameRules ++ macroRules ++ pathRules ++ typeRules ++ boundRules ++ genericRules
    ++ patternRules ++ operatorRules ++ primaryRules ++ blockRules ++ closureRules
    ++ statementRules ++ itemRules ++ definitionRules ++ traitRules ++ [fileRule]

/-- The grammar of the language. -/
def grammar : Except GrammarError Grammar := Grammar.ofRules rules

/-- A construct that can be parsed on its own. -/
inductive Entry where
  | sourceFile | item | function | struct | enum | union | trait | impl | module | use
  | typeAlias | const | static | externBlock | macroRules | macroCall
  | attr | innerAttr | visibility | identifier | simplePath | typePath | exprPath
  | genericParams | genericArgs | whereClause
  | type | pattern | expression | literal | block | statement | letStatement | matchArm
  | closure
  deriving DecidableEq, Repr

namespace Entry

/-- Every construct that can be parsed on its own. -/
def all : List Entry :=
  [sourceFile, item, function, struct, enum, union, trait, impl, module, use, typeAlias, const,
   static, externBlock, macroRules, macroCall, attr, innerAttr, visibility, identifier,
   simplePath, typePath, exprPath, genericParams, genericArgs, whereClause, type, pattern,
   expression, literal, block, statement, letStatement, matchArm, closure]

/-- The name of a construct. -/
def tag : Entry → String
  | sourceFile => "SourceFile"
  | item => "Item"
  | function => "Function"
  | struct => "Struct"
  | enum => "Enum"
  | union => "Union"
  | trait => "Trait"
  | impl => "Impl"
  | module => "Module"
  | use => "Use"
  | typeAlias => "TypeAlias"
  | const => "Const"
  | static => "Static"
  | externBlock => "ExternBlock"
  | macroRules => "MacroRules"
  | macroCall => "MacroCall"
  | attr => "Attribute"
  | innerAttr => "InnerAttribute"
  | visibility => "Visibility"
  | identifier => "Identifier"
  | simplePath => "SimplePath"
  | typePath => "TypePath"
  | exprPath => "ExprPath"
  | genericParams => "GenericParams"
  | genericArgs => "GenericArgs"
  | whereClause => "WhereClause"
  | type => "Type"
  | pattern => "Pattern"
  | expression => "Expression"
  | literal => "Literal"
  | block => "Block"
  | statement => "Statement"
  | letStatement => "LetStatement"
  | matchArm => "MatchArm"
  | closure => "Closure"

/-- The construct of a name. -/
def ofTag? (t : String) : Option Entry := all.find? (·.tag = t)

/-- The rule of a construct. -/
def ruleName : Entry → String
  | sourceFile => fileRule.name
  | item => "item"
  | function => "fn"
  | struct => "struct"
  | enum => "enum"
  | union => "union"
  | trait => "trait"
  | impl => "impl"
  | module => "module"
  | use => "use"
  | typeAlias => "type_alias"
  | const => "const"
  | static => "static"
  | externBlock => "extern_block"
  | macroRules => "macro_rules"
  | macroCall => "macro_call_item"
  | attr => "outer_attr"
  | innerAttr => "inner_attr"
  | visibility => "visibility"
  | identifier => "name"
  | simplePath => "simple_path"
  | typePath => "type_path"
  | exprPath => "expr_path"
  | genericParams => "generic_params"
  | genericArgs => "generic_args"
  | whereClause => "where_clause"
  | type => "type"
  | pattern => "pattern"
  | expression => "expr"
  | literal => "literal"
  | block => "block_expr"
  | statement => "stmt"
  | letStatement => "let_stmt"
  | matchArm => "match_arm"
  | closure => "closure_expr"

end Entry
end Language
end Packrat
