/-
# Tags of kinds

The tag of a kind is its name in trees and dumps: capital words joined by `_`, with
`_KW` at the end of a keyword's.
-/

import Packrat.Kind

namespace Packrat
namespace Kind

/-- The name of a kind in trees and dumps. -/
def tag : Kind → String
  | whitespace => "WHITESPACE"
  | lineComment => "LINE_COMMENT"
  | blockComment => "BLOCK_COMMENT"
  | innerDocComment => "INNER_DOC_COMMENT"
  | outerDocComment => "OUTER_DOC_COMMENT"
  | shebang => "SHEBANG"
  | ident => "IDENT"
  | rawIdent => "RAW_IDENT"
  | lifetime => "LIFETIME"
  | intNumber => "INT_NUMBER"
  | floatNumber => "FLOAT_NUMBER"
  | string => "STRING"
  | rawString => "RAW_STRING"
  | byteString => "BYTE_STRING"
  | rawByteString => "RAW_BYTE_STRING"
  | char => "CHAR"
  | byte => "BYTE"
  | lBrace => "L_BRACE"
  | rBrace => "R_BRACE"
  | lBracket => "L_BRACKET"
  | rBracket => "R_BRACKET"
  | lParen => "L_PAREN"
  | rParen => "R_PAREN"
  | semicolon => "SEMICOLON"
  | comma => "COMMA"
  | dot => "DOT"
  | dotDot => "DOT_DOT"
  | dotDotDot => "DOT_DOT_DOT"
  | dotDotEq => "DOT_DOT_EQ"
  | colon => "COLON"
  | colonColon => "COLON_COLON"
  | eq => "EQ"
  | eqEq => "EQ_EQ"
  | fatArrow => "FAT_ARROW"
  | bang => "BANG"
  | bangEq => "BANG_EQ"
  | lt => "LT"
  | ltEq => "LT_EQ"
  | shl => "SHL"
  | shlEq => "SHL_EQ"
  | gt => "GT"
  | gtEq => "GT_EQ"
  | shr => "SHR"
  | shrEq => "SHR_EQ"
  | minus => "MINUS"
  | minusEq => "MINUS_EQ"
  | thinArrow => "THIN_ARROW"
  | plus => "PLUS"
  | plusEq => "PLUS_EQ"
  | star => "STAR"
  | starEq => "STAR_EQ"
  | slash => "SLASH"
  | slashEq => "SLASH_EQ"
  | percent => "PERCENT"
  | percentEq => "PERCENT_EQ"
  | caret => "CARET"
  | caretEq => "CARET_EQ"
  | amp => "AMP"
  | ampAmp => "AMP_AMP"
  | ampEq => "AMP_EQ"
  | pipe => "PIPE"
  | pipePipe => "PIPE_PIPE"
  | pipeEq => "PIPE_EQ"
  | atSign => "AT"
  | pound => "POUND"
  | dollar => "DOLLAR"
  | question => "QUESTION"
  | tilde => "TILDE"
  | underscore => "UNDERSCORE"
  | asKw => "AS_KW"
  | asyncKw => "ASYNC_KW"
  | awaitKw => "AWAIT_KW"
  | breakKw => "BREAK_KW"
  | constKw => "CONST_KW"
  | continueKw => "CONTINUE_KW"
  | crateKw => "CRATE_KW"
  | dynKw => "DYN_KW"
  | elseKw => "ELSE_KW"
  | enumKw => "ENUM_KW"
  | externKw => "EXTERN_KW"
  | falseKw => "FALSE_KW"
  | fnKw => "FN_KW"
  | forKw => "FOR_KW"
  | ifKw => "IF_KW"
  | implKw => "IMPL_KW"
  | inKw => "IN_KW"
  | letKw => "LET_KW"
  | loopKw => "LOOP_KW"
  | matchKw => "MATCH_KW"
  | modKw => "MOD_KW"
  | moveKw => "MOVE_KW"
  | mutKw => "MUT_KW"
  | pubKw => "PUB_KW"
  | refKw => "REF_KW"
  | returnKw => "RETURN_KW"
  | selfKw => "SELF_KW"
  | selfTypeKw => "SELF_TYPE_KW"
  | staticKw => "STATIC_KW"
  | structKw => "STRUCT_KW"
  | superKw => "SUPER_KW"
  | traitKw => "TRAIT_KW"
  | trueKw => "TRUE_KW"
  | typeKw => "TYPE_KW"
  | unsafeKw => "UNSAFE_KW"
  | useKw => "USE_KW"
  | whereKw => "WHERE_KW"
  | whileKw => "WHILE_KW"
  | abstractKw => "ABSTRACT_KW"
  | becomeKw => "BECOME_KW"
  | boxKw => "BOX_KW"
  | doKw => "DO_KW"
  | finalKw => "FINAL_KW"
  | macroKw => "MACRO_KW"
  | overrideKw => "OVERRIDE_KW"
  | privKw => "PRIV_KW"
  | typeofKw => "TYPEOF_KW"
  | unsizedKw => "UNSIZED_KW"
  | virtualKw => "VIRTUAL_KW"
  | yieldKw => "YIELD_KW"
  | eof => "EOF"
  | sourceFile => "SOURCE_FILE"
  | attr => "ATTR"
  | innerAttr => "INNER_ATTR"
  | metaItem => "META"
  | tokenTree => "TOKEN_TREE"
  | visibility => "VISIBILITY"
  | name => "NAME"
  | nameRef => "NAME_REF"
  | label => "LABEL"
  | moduleItem => "MODULE"
  | itemList => "ITEM_LIST"
  | externCrate => "EXTERN_CRATE"
  | rename => "RENAME"
  | use => "USE"
  | useTree => "USE_TREE"
  | useTreeList => "USE_TREE_LIST"
  | fn => "FN"
  | abi => "ABI"
  | paramList => "PARAM_LIST"
  | param => "PARAM"
  | selfParam => "SELF_PARAM"
  | retType => "RET_TYPE"
  | typeAlias => "TYPE_ALIAS"
  | struct => "STRUCT"
  | recordFieldList => "RECORD_FIELD_LIST"
  | recordField => "RECORD_FIELD"
  | tupleFieldList => "TUPLE_FIELD_LIST"
  | tupleField => "TUPLE_FIELD"
  | enum => "ENUM"
  | variantList => "VARIANT_LIST"
  | variant => "VARIANT"
  | union => "UNION"
  | const => "CONST"
  | static => "STATIC"
  | trait => "TRAIT"
  | assocItemList => "ASSOC_ITEM_LIST"
  | impl => "IMPL"
  | externBlock => "EXTERN_BLOCK"
  | externItemList => "EXTERN_ITEM_LIST"
  | macroCall => "MACRO_CALL"
  | macroRules => "MACRO_RULES"
  | macroRule => "MACRO_RULE"
  | macroMatcher => "MACRO_MATCHER"
  | macroTranscriber => "MACRO_TRANSCRIBER"
  | genericParamList => "GENERIC_PARAM_LIST"
  | lifetimeParam => "LIFETIME_PARAM"
  | typeParam => "TYPE_PARAM"
  | constParam => "CONST_PARAM"
  | whereClause => "WHERE_CLAUSE"
  | wherePred => "WHERE_PRED"
  | typeBoundList => "TYPE_BOUND_LIST"
  | typeBound => "TYPE_BOUND"
  | forLifetimes => "FOR_LIFETIMES"
  | path => "PATH"
  | pathSegment => "PATH_SEGMENT"
  | qualifiedPathType => "QUALIFIED_PATH_TYPE"
  | genericArgList => "GENERIC_ARG_LIST"
  | typeArg => "TYPE_ARG"
  | lifetimeArg => "LIFETIME_ARG"
  | constArg => "CONST_ARG"
  | assocTypeArg => "ASSOC_TYPE_ARG"
  | parenArgList => "PAREN_ARG_LIST"
  | pathType => "PATH_TYPE"
  | tupleType => "TUPLE_TYPE"
  | neverType => "NEVER_TYPE"
  | ptrType => "PTR_TYPE"
  | refType => "REF_TYPE"
  | arrayType => "ARRAY_TYPE"
  | sliceType => "SLICE_TYPE"
  | inferType => "INFER_TYPE"
  | fnPtrType => "FN_PTR_TYPE"
  | implTraitType => "IMPL_TRAIT_TYPE"
  | dynTraitType => "DYN_TRAIT_TYPE"
  | parenType => "PAREN_TYPE"
  | literalPat => "LITERAL_PAT"
  | identPat => "IDENT_PAT"
  | wildcardPat => "WILDCARD_PAT"
  | restPat => "REST_PAT"
  | rangePat => "RANGE_PAT"
  | refPat => "REF_PAT"
  | recordPat => "RECORD_PAT"
  | recordPatFieldList => "RECORD_PAT_FIELD_LIST"
  | recordPatField => "RECORD_PAT_FIELD"
  | tupleStructPat => "TUPLE_STRUCT_PAT"
  | tuplePat => "TUPLE_PAT"
  | slicePat => "SLICE_PAT"
  | parenPat => "PAREN_PAT"
  | pathPat => "PATH_PAT"
  | orPat => "OR_PAT"
  | literal => "LITERAL"
  | pathExpr => "PATH_EXPR"
  | tupleExpr => "TUPLE_EXPR"
  | arrayExpr => "ARRAY_EXPR"
  | parenExpr => "PAREN_EXPR"
  | blockExpr => "BLOCK_EXPR"
  | closureExpr => "CLOSURE_EXPR"
  | ifExpr => "IF_EXPR"
  | letExpr => "LET_EXPR"
  | loopExpr => "LOOP_EXPR"
  | whileExpr => "WHILE_EXPR"
  | forExpr => "FOR_EXPR"
  | breakExpr => "BREAK_EXPR"
  | continueExpr => "CONTINUE_EXPR"
  | returnExpr => "RETURN_EXPR"
  | matchExpr => "MATCH_EXPR"
  | matchArmList => "MATCH_ARM_LIST"
  | matchArm => "MATCH_ARM"
  | matchGuard => "MATCH_GUARD"
  | recordExpr => "RECORD_EXPR"
  | recordExprFieldList => "RECORD_EXPR_FIELD_LIST"
  | recordExprField => "RECORD_EXPR_FIELD"
  | callExpr => "CALL_EXPR"
  | argList => "ARG_LIST"
  | methodCallExpr => "METHOD_CALL_EXPR"
  | fieldExpr => "FIELD_EXPR"
  | awaitExpr => "AWAIT_EXPR"
  | tryExpr => "TRY_EXPR"
  | indexExpr => "INDEX_EXPR"
  | castExpr => "CAST_EXPR"
  | prefixExpr => "PREFIX_EXPR"
  | refExpr => "REF_EXPR"
  | binExpr => "BIN_EXPR"
  | rangeExpr => "RANGE_EXPR"
  | rangeFromExpr => "RANGE_FROM_EXPR"
  | rangeToExpr => "RANGE_TO_EXPR"
  | rangeFullExpr => "RANGE_FULL_EXPR"
  | exprStmt => "EXPR_STMT"
  | letStmt => "LET_STMT"
  | letElse => "LET_ELSE"
  | error => "ERROR"

/-- The kind of a tag. -/
def ofTag? (t : String) : Option Kind := all.find? (·.tag = t)

end Kind
end Packrat
