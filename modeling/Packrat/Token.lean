/-
# Tokens

A token owns the whitespace and comments between the token before it and itself, in
the order of the text.  A text ends in one empty `eof` token, which owns what is left,
so that every character belongs to exactly one token or one trivia.
-/

import Packrat.Kind.Tag
import Packrat.Lexeme.Comment
import Packrat.Text.Position
import Packrat.Text.Quoted

namespace Packrat

/-- Whitespace or a comment in front of a token. -/
structure Trivia where
  kind : TriviaKind
  text : String
  range : Range
  position : Position
  deriving DecidableEq, Repr

/-- The text of a comment without its marks; of other trivia the whole text. -/
def Trivia.body (t : Trivia) : String := String.ofList (t.kind.body t.text.toList)

/-- A significant piece of text with the trivia in front of it. -/
structure Token where
  kind : Kind
  text : String
  range : Range
  position : Position
  trivia : List Trivia
  deriving DecidableEq, Repr

/-- Coarse classes of tokens, as a highlighter needs them. -/
inductive TokenClass where
  | identifier | rawIdentifier | keyword | lifetime | numericLiteral | floatLiteral
  | stringLiteral | rawStringLiteral | byteStringLiteral | charLiteral | booleanLiteral
  | punctuator | endOfFile
  deriving DecidableEq, Repr

namespace TokenClass

/-- The name of a class. -/
def tag : TokenClass → String
  | identifier => "Identifier"
  | rawIdentifier => "RawIdentifier"
  | keyword => "Keyword"
  | lifetime => "Lifetime"
  | numericLiteral => "NumericLiteral"
  | floatLiteral => "FloatLiteral"
  | stringLiteral => "StringLiteral"
  | rawStringLiteral => "RawStringLiteral"
  | byteStringLiteral => "ByteStringLiteral"
  | charLiteral => "CharLiteral"
  | booleanLiteral => "BooleanLiteral"
  | punctuator => "Punctuator"
  | endOfFile => "EndOfFile"

/-- The class of a kind of token. -/
def ofKind (k : Kind) : TokenClass :=
  match k with
  | .ident => identifier
  | .rawIdent => rawIdentifier
  | .lifetime => lifetime
  | .intNumber => numericLiteral
  | .floatNumber => floatLiteral
  | .string => stringLiteral
  | .rawString => rawStringLiteral
  | .byteString | .rawByteString | .byte => byteStringLiteral
  | .char => charLiteral
  | .trueKw | .falseKw => booleanLiteral
  | .eof => endOfFile
  | _ => if k.isKeyword then keyword else punctuator

end TokenClass

namespace Token

/-- The class of a token. -/
def classOf (t : Token) : TokenClass := TokenClass.ofKind t.kind

/-- The comments in front of a token. -/
def comments (t : Token) : List Trivia := t.trivia.filter (·.kind.isComment)

/-- One line with the kind, the position and the quoted text of a token. -/
def describe (t : Token) : String :=
  let place := s!"{t.kind.tag}@{t.position.line}:{t.position.column} "
  place ++ String.ofList (Text.quoted t.text.toList)

/-- The text of a token behind that of its trivia. -/
def fullText (t : Token) : String := String.join (t.trivia.map (·.text)) ++ t.text

end Token
end Packrat
