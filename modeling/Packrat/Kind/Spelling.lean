/-
# Fixed spellings

Keywords and punctuators have one spelling each.  The tables below serve the lexer,
the grammar and the diagnostics alike; punctuators stand with the longer ones first,
so that the first entry that begins a text is the longest one.
-/

import Packrat.Kind

namespace Packrat
namespace Kind

/-- Keywords in use. -/
def strictKeywords : List (String × Kind) :=
  [("as", .asKw), ("async", .asyncKw), ("await", .awaitKw), ("break", .breakKw),
   ("const", .constKw), ("continue", .continueKw), ("crate", .crateKw), ("dyn", .dynKw),
   ("else", .elseKw), ("enum", .enumKw), ("extern", .externKw), ("false", .falseKw),
   ("fn", .fnKw), ("for", .forKw), ("if", .ifKw), ("impl", .implKw), ("in", .inKw),
   ("let", .letKw), ("loop", .loopKw), ("match", .matchKw), ("mod", .modKw), ("move", .moveKw),
   ("mut", .mutKw), ("pub", .pubKw), ("ref", .refKw), ("return", .returnKw), ("self", .selfKw),
   ("Self", .selfTypeKw), ("static", .staticKw), ("struct", .structKw), ("super", .superKw),
   ("trait", .traitKw), ("true", .trueKw), ("type", .typeKw), ("unsafe", .unsafeKw),
   ("use", .useKw), ("where", .whereKw), ("while", .whileKw)]

/-- Keywords reserved for later. -/
def reservedKeywords : List (String × Kind) :=
  [("abstract", .abstractKw), ("become", .becomeKw), ("box", .boxKw), ("do", .doKw),
   ("final", .finalKw), ("macro", .macroKw), ("override", .overrideKw), ("priv", .privKw),
   ("typeof", .typeofKw), ("unsized", .unsizedKw), ("virtual", .virtualKw), ("yield", .yieldKw)]

/-- Punctuators, the longer ones first. -/
def punctuators : List (String × Kind) :=
  [("...", .dotDotDot), ("..=", .dotDotEq), ("<<=", .shlEq), (">>=", .shrEq), ("..", .dotDot),
   ("::", .colonColon), ("==", .eqEq), ("=>", .fatArrow), ("!=", .bangEq), ("<=", .ltEq),
   ("<<", .shl), (">=", .gtEq), (">>", .shr), ("-=", .minusEq), ("->", .thinArrow),
   ("+=", .plusEq), ("*=", .starEq), ("/=", .slashEq), ("%=", .percentEq), ("^=", .caretEq),
   ("&&", .ampAmp), ("&=", .ampEq), ("||", .pipePipe), ("|=", .pipeEq), ("\x7b", .lBrace),
   ("\x7d", .rBrace), ("[", .lBracket), ("]", .rBracket), ("(", .lParen), (")", .rParen),
   (";", .semicolon), (",", .comma), (".", .dot), (":", .colon), ("=", .eq), ("!", .bang),
   ("<", .lt), (">", .gt), ("-", .minus), ("+", .plus), ("*", .star), ("/", .slash),
   ("%", .percent), ("^", .caret), ("&", .amp), ("|", .pipe), ("@", .atSign), ("#", .pound),
   ("$", .dollar), ("?", .question), ("~", .tilde), ("_", .underscore)]

/-- Identifiers that act as keywords only in certain places. -/
def contextualKeywords : List String := ["union", "auto", "default", "macro_rules", "raw"]

/-- Words that may not follow `r#`. -/
def rawForbidden : List String := ["crate", "self", "super", "Self"]

/-- The kind that a table gives to a word. -/
def lookUp (table : List (String × Kind)) (word : String) : Option Kind :=
  (table.find? (·.1 = word)).map (·.2)

/-- The keyword with this spelling. -/
def keyword? (word : String) : Option Kind := lookUp (strictKeywords ++ reservedKeywords) word

/-- The punctuator with this spelling. -/
def punctuator? (word : String) : Option Kind := lookUp punctuators word

/-- The spelling of a keyword or punctuator. -/
def spelling? (k : Kind) : Option String :=
  ((strictKeywords ++ reservedKeywords ++ punctuators).find? (·.2 = k)).map (·.1)

/-- What a kind is called in a message.  Keywords in use and punctuators are quoted;
reserved keywords, nodes and pieces of text have no name of their own. -/
def describe (k : Kind) : String :=
  match k with
  | ident | rawIdent => "identifier"
  | lifetime => "lifetime"
  | intNumber => "integer literal"
  | floatNumber => "float literal"
  | string | rawString => "string literal"
  | byteString | rawByteString => "byte string literal"
  | char => "char literal"
  | byte => "byte literal"
  | eof => "end of file"
  | whitespace => "whitespace"
  | lineComment | blockComment | innerDocComment | outerDocComment | shebang => "comment"
  | _ =>
    match (strictKeywords ++ punctuators).find? (·.2 = k) with
    | some (word, _) => "'" ++ word ++ "'"
    | none => "syntax"

end Kind
end Packrat
