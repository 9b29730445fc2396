/-
# Error codes

Every diagnostic carries a code of the form `E` and four digits:

| range | errors |
| --- | --- |
| `E01xx` | lexical |
| `E02xx` | structural: delimiters, semicolons, input after the end |
| `E03xx` | items, types and patterns |
| `E04xx` | expressions |
| `E09xx` | everything else |
-/

import Packrat.Lexeme.Fault

namespace Packrat

/-- What a diagnostic is about. -/
inductive ErrorCode where
  | invalidCharacter | unterminatedString | unterminatedComment | invalidNumber
  | invalidCharLiteral | invalidEscape | reservedIdentifier | invalidEncoding
  | missingSemicolon | missingBrace | missingParen | missingBracket | missingAngle
  | trailingInput
  | missingItem | missingName | missingType | missingPattern
  | missingExpression | missingOperand | chainedComparison
  | unexpectedToken | budgetExceeded | nestingTooDeep | internalError
  deriving DecidableEq, Repr, Inhabited

namespace ErrorCode

/-- Every code, in the order of its number. -/
def all : List ErrorCode :=
  [invalidCharacter, unterminatedString, unterminatedComment, invalidNumber,
   invalidCharLiteral, invalidEscape, reservedIdentifier, invalidEncoding, missingSemicolon,
   missingBrace, missingParen, missingBracket, missingAngle, trailingInput, missingItem,
   missingName, missingType, missingPattern, missingExpression, missingOperand,
   chainedComparison, unexpectedToken, budgetExceeded, nestingTooDeep, internalError]

/-- The code as it is written. -/
def tag : ErrorCode → String
  | invalidCharacter => "E0101"
  | unterminatedString => "E0102"
  | unterminatedComment => "E0103"
  | invalidNumber => "E0104"
  | invalidCharLiteral => "E0105"
  | invalidEscape => "E0106"
  | reservedIdentifier => "E0107"
  | invalidEncoding => "E0108"
  | missingSemicolon => "E0201"
  | missingBrace => "E0202"
  | missingParen => "E0203"
  | missingBracket => "E0204"
  | missingAngle => "E0205"
  | trailingInput => "E0206"
  | missingItem => "E0301"
  | missingName => "E0302"
  | missingType => "E0303"
  | missingPattern => "E0304"
  | missingExpression => "E0401"
  | missingOperand => "E0402"
  | chainedComparison => "E0403"
  | unexpectedToken => "E0901"
  | budgetExceeded => "E0902"
  | nestingTooDeep => "E0903"
  | internalError => "E0999"

/-- The code that is written as `t`. -/
def ofTag? (t : String) : Option ErrorCode := all.find? (·.tag = t)

/-- A lexical error. -/
def isLexical : ErrorCode → Bool
  | invalidCharacter | unterminatedString | unterminatedComment | invalidNumber
  | invalidCharLiteral | invalidEscape | reservedIdentifier | invalidEncoding => true
  | _ => false

/-- A missing delimiter or semicolon, or input after the end. -/
def isStructural : ErrorCode → Bool
  | missingSemicolon | missingBrace | missingParen | missingBracket | missingAngle
  | trailingInput => true
  | _ => false

/-- The family of a code, in words. -/
def category (c : ErrorCode) : String :=
  if c.isLexical then "lexical error"
  else if c.isStructural then "structural error"
  else match c with
    | missingItem | missingName => "item error"
    | missingType => "type error"
    | missingPattern => "pattern error"
    | missingExpression | missingOperand | chainedComparison => "expression error"
    | _ => "syntax error"

/-- What a diagnostic says when it has no message of its own. -/
def defaultMessage : ErrorCode → String
  | invalidCharacter => "invalid character"
  | unterminatedString => "unterminated string literal"
  | unterminatedComment => "unterminated block comment"
  | invalidNumber => "invalid numeric literal"
  | invalidCharLiteral => "invalid character literal"
  | invalidEscape => "invalid escape sequence"
  | reservedIdentifier => "reserved word used as raw identifier"
  | invalidEncoding => "invalid source encoding"
  | missingSemicolon => "missing semicolon"
  | missingBrace => "expected '\x7d'"
  | missingParen => "expected ')'"
  | missingBracket => "expected ']'"
  | missingAngle => "expected '>'"
  | trailingInput => "unexpected input after end of file"
  | missingItem => "expected item"
  | missingName => "missing identifier"
  | missingType => "expected type"
  | missingPattern => "expected pattern"
  | missingExpression => "expected expression"
  | missingOperand => "missing operand"
  | chainedComparison => "comparison operators cannot be chained"
  | unexpectedToken => "unexpected token"
  | budgetExceeded => "parse budget exceeded"
  | nestingTooDeep => "nesting too deep"
  | internalError => "internal parser error"

/-- The code of a lexical fault. -/
def ofFault : LexFault → ErrorCode
  | .unexpectedChar => invalidCharacter
  | .unterminatedString | .unterminatedRawString => unterminatedString
  | .unterminatedBlockComment => unterminatedComment
  | .invalidNumber => invalidNumber
  | .unterminatedChar => invalidCharLiteral
  | .invalidEscape | .controlCharacter | .nonAscii => invalidEscape
  | .reservedRawIdentifier => reservedIdentifier

end ErrorCode
end Packrat
