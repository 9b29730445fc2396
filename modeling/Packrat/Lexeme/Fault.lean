/-
# Lexical faults

Why no lexeme could be read at a place.
-/

import Packrat.Text.Position

namespace Packrat

/-- Why no lexeme could be read. -/
inductive LexFault where
  | unexpectedChar | unterminatedString | unterminatedRawString | unterminatedBlockComment
  | unterminatedChar | invalidEscape | controlCharacter | nonAscii | reservedRawIdentifier
  | invalidNumber
  deriving DecidableEq, Repr, Inhabited

namespace LexFault

/-- Every fault. -/
def all : List LexFault :=
  [unexpectedChar, unterminatedString, unterminatedRawString, unterminatedBlockComment,
   unterminatedChar, invalidEscape, controlCharacter, nonAscii, reservedRawIdentifier,
   invalidNumber]

/-- The name of a fault. -/
def tag : LexFault → String
  | unexpectedChar => "UnexpectedChar"
  | unterminatedString => "UnterminatedString"
  | unterminatedRawString => "UnterminatedRawString"
  | unterminatedBlockComment => "UnterminatedBlockComment"
  | unterminatedChar => "UnterminatedChar"
  | invalidEscape => "InvalidEscape"
  | controlCharacter => "ControlCharacter"
  | nonAscii => "NonAscii"
  | reservedRawIdentifier => "ReservedRawIdentifier"
  | invalidNumber => "InvalidNumber"

/-- The fault in words. -/
def message : LexFault → String
  | unexpectedChar => "unexpected character"
  | unterminatedString => "unterminated string literal"
  | unterminatedRawString => "unterminated raw string literal"
  | unterminatedBlockComment => "unterminated block comment"
  | unterminatedChar => "unterminated character literal"
  | invalidEscape => "invalid escape sequence"
  | controlCharacter => "bare control character in literal"
  | nonAscii => "non-ASCII character in byte literal"
  | reservedRawIdentifier => "reserved word cannot be a raw identifier"
  | invalidNumber => "invalid numeric literal"

end LexFault

/-- A fault with its place in the text. -/
structure LexError where
  fault : LexFault
  offset : Nat
  position : Position
  deriving DecidableEq, Repr

/-- The fault and its position. -/
def LexError.message (e : LexError) : String :=
  s!"{e.fault.message} at line {e.position.line}, column {e.position.column}"

end Packrat
