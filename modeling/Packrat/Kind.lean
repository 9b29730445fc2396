/-
# Kinds of tokens and nodes

One enumeration names every token and every node of a syntax tree.  Tokens come
first, in the order trivia, literals, punctuators, keywords, end of text; nodes
follow.  A kind's index is its place in this order, and the classes of tokens are
intervals of it.
-/

namespace Packrat

/-- What a token or a node is. -/
inductive Kind where
  -- trivia
  | whitespace | lineComment | blockComment | innerDocComment | outerDocComment | shebang
  -- names, lifetimes and literals
  | ident | rawIdent | lifetime | intNumber | floatNumber | string | rawString
  | byteString | rawByteString | char | byte
  -- punctuators
  | lBrace | rBrace | lBracket | rBracket | lParen | rParen | semicolon | comma | dot
  | dotDot | dotDotDot | dotDotEq | colon | colonColon | eq | eqEq | fatArrow | bang
  | bangEq | lt | ltEq | shl | shlEq | gt | gtEq | shr | shrEq | minus | minusEq
  | thinArrow | plus | plusEq | star | starEq | slash | slashEq | percent | percentEq
  | caret | caretEq | amp | ampAmp | ampEq | pipe | pipePipe | pipeEq | atSign | pound
  | dollar | question | tilde | underscore
  -- keywords in use
  | asKw | asyncKw | awaitKw | breakKw | constKw | continueKw | crateKw | dynKw | elseKw
  | enumKw | externKw | falseKw | fnKw | forKw | ifKw | implKw | inKw | letKw | loopKw
  | matchKw | modKw | moveKw | mutKw | pubKw | refKw | returnKw | selfKw | selfTypeKw
  | staticKw | structKw | superKw | traitKw | trueKw | typeKw | unsafeKw | useKw
  | whereKw | whileKw
  -- keywords reserved for later, never identifiers
  | abstractKw | becomeKw | boxKw | doKw | finalKw | macroKw | overrideKw | privKw
  | typeofKw | unsizedKw | virtualKw | yieldKw
  -- the end of the text
  | eof
  -- nodes: file, attributes, visibility, names
  | sourceFile | attr | innerAttr | metaItem | tokenTree | visibility | name | nameRef
  | label
  -- nodes: items
  | moduleItem | itemList | externCrate | rename | use | useTree | useTreeList | fn | abi
  | paramList | param | selfParam | retType | typeAlias | struct | recordFieldList
  | recordField | tupleFieldList | tupleField | enum | variantList | variant | union
  | const | static | trait | assocItemList | impl | externBlock | externItemList
  | macroCall | macroRules | macroRule | macroMatcher | macroTranscriber
  -- nodes: generics
  | genericParamList | lifetimeParam | typeParam | constParam | whereClause | wherePred
  | typeBoundList | typeBound | forLifetimes
  -- nodes: paths
  | path | pathSegment | qualifiedPathType | genericArgList | typeArg | lifetimeArg
  | constArg | assocTypeArg | parenArgList
  -- nodes: types
  | pathType | tupleType | neverType | ptrType | refType | arrayType | sliceType
  | inferType | fnPtrType | implTraitType | dynTraitType | parenType
  -- nodes: patterns
  | literalPat | identPat | wildcardPat | restPat | rangePat | refPat | recordPat
  | recordPatFieldList | recordPatField | tupleStructPat | tuplePat | slicePat | parenPat
  | pathPat | orPat
  -- nodes: expressions
  | literal | pathExpr | tupleExpr | arrayExpr | parenExpr | blockExpr | closureExpr
  | ifExpr | letExpr | loopExpr | whileExpr | forExpr | breakExpr | continueExpr
  | returnExpr | matchExpr | matchArmList | matchArm | matchGuard | recordExpr
  | recordExprFieldList | recordExprField | callExpr | argList | methodCallExpr
  | fieldExpr | awaitExpr | tryExpr | indexExpr | castExpr | prefixExpr | refExpr
  | binExpr | rangeExpr | rangeFromExpr | rangeToExpr | rangeFullExpr
  -- nodes: statements
  | exprStmt | letStmt | letElse
  -- a piece of text that is no token
  | error
  deriving DecidableEq, Repr, Inhabited

namespace Kind

/-- Place of a kind in the enumeration. -/
def index (k : Kind) : Nat := k.ctorIdx

/-- Every kind, in order. -/
def all : List Kind :=
  [.whitespace, .lineComment, .blockComment, .innerDocComment, .outerDocComment, .shebang, .ident,
   .rawIdent, .lifetime, .intNumber, .floatNumber, .string, .rawString, .byteString,
   .rawByteString, .char, .byte, .lBrace, .rBrace, .lBracket, .rBracket, .lParen, .rParen,
   .semicolon, .comma, .dot, .dotDot, .dotDotDot, .dotDotEq, .colon, .colonColon, .eq, .eqEq,
   .fatArrow, .bang, .bangEq, .lt, .ltEq, .shl, .shlEq, .gt, .gtEq, .shr, .shrEq, .minus,
   .minusEq, .thinArrow, .plus, .plusEq, .star, .starEq, .slash, .slashEq, .percent, .percentEq,
   .caret, .caretEq, .amp, .ampAmp, .ampEq, .pipe, .pipePipe, .pipeEq, .atSign, .pound, .dollar,
   .question, .tilde, .underscore, .asKw, .asyncKw, .awaitKw, .breakKw, .constKw, .continueKw,
   .crateKw, .dynKw, .elseKw, .enumKw, .externKw, .falseKw, .fnKw, .forKw, .ifKw, .implKw, .inKw,
   .letKw, .loopKw, .matchKw, .modKw, .moveKw, .mutKw, .pubKw, .refKw, .returnKw, .selfKw,
   .selfTypeKw, .staticKw, .structKw, .superKw, .traitKw, .trueKw, .typeKw, .unsafeKw, .useKw,
   .whereKw, .whileKw, .abstractKw, .becomeKw, .boxKw, .doKw, .finalKw, .macroKw, .overrideKw,
   .privKw, .typeofKw, .unsizedKw, .virtualKw, .yieldKw, .eof, .sourceFile, .attr, .innerAttr,
   .metaItem, .tokenTree, .visibility, .name, .nameRef, .label, .moduleItem, .itemList,
   .externCrate, .rename, .use, .useTree, .useTreeList, .fn, .abi, .paramList, .param, .selfParam,
   .retType, .typeAlias, .struct, .recordFieldList, .recordField, .tupleFieldList, .tupleField,
   .enum, .variantList, .variant, .union, .const, .static, .trait, .assocItemList, .impl,
   .externBlock, .externItemList, .macroCall, .macroRules, .macroRule, .macroMatcher,
   .macroTranscriber, .genericParamList, .lifetimeParam, .typeParam, .constParam, .whereClause,
   .wherePred, .typeBoundList, .typeBound, .forLifetimes, .path, .pathSegment, .qualifiedPathType,
   .genericArgList, .typeArg, .lifetimeArg, .constArg, .assocTypeArg, .parenArgList, .pathType,
   .tupleType, .neverType, .ptrType, .refType, .arrayType, .sliceType, .inferType, .fnPtrType,
   .implTraitType, .dynTraitType, .parenType, .literalPat, .identPat, .wildcardPat, .restPat,
   .rangePat, .refPat, .recordPat, .recordPatFieldList, .recordPatField, .tupleStructPat,
   .tuplePat, .slicePat, .parenPat, .pathPat, .orPat, .literal, .pathExpr, .tupleExpr, .arrayExpr,
   .parenExpr, .blockExpr, .closureExpr, .ifExpr, .letExpr, .loopExpr, .whileExpr, .forExpr,
   .breakExpr, .continueExpr, .returnExpr, .matchExpr, .matchArmList, .matchArm, .matchGuard,
   .recordExpr, .recordExprFieldList, .recordExprField, .callExpr, .argList, .methodCallExpr,
   .fieldExpr, .awaitExpr, .tryExpr, .indexExpr, .castExpr, .prefixExpr, .refExpr, .binExpr,
   .rangeExpr, .rangeFromExpr, .rangeToExpr, .rangeFullExpr, .exprStmt, .letStmt, .letElse,
   .error]

/-- The kind at a place of the enumeration. -/
def ofIndex? (i : Nat) : Option Kind := all[i]?

/-- Whitespace, comments and the interpreter line. -/
def isTrivia (k : Kind) : Bool := k.index ≤ shebang.index

/-- A comment of any flavour. -/
def isComment : Kind → Bool
  | lineComment | blockComment | innerDocComment | outerDocComment => true
  | _ => false

/-- A keyword, in use or reserved. -/
def isKeyword (k : Kind) : Bool := asKw.index ≤ k.index && k.index ≤ yieldKw.index

/-- A keyword reserved for later. -/
def isReserved (k : Kind) : Bool := abstractKw.index ≤ k.index && k.index ≤ yieldKw.index

/-- A punctuator. -/
def isPunctuator (k : Kind) : Bool := lBrace.index ≤ k.index && k.index ≤ underscore.index

/-- A literal, `true` and `false` included. -/
def isLiteral (k : Kind) : Bool :=
  intNumber.index ≤ k.index && k.index ≤ byte.index || k = trueKw || k = falseKw

/-- A token, as opposed to a node. -/
def isToken (k : Kind) : Bool := k.index ≤ eof.index

/-- The opening delimiter of a group. -/
def isOpening : Kind → Bool
  | lParen | lBracket | lBrace => true
  | _ => false

/-- The closing delimiter of a group. -/
def isClosing : Kind → Bool
  | rParen | rBracket | rBrace => true
  | _ => false

/-- Neither trivia nor the empty token at the end of the text. -/
def isSignificant (k : Kind) : Bool := !k.isTrivia && k != eof

end Kind
end Packrat
