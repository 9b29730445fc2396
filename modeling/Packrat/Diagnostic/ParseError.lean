/-
# Parse errors

A parse stops without a tree for one of three reasons: no rule could read on, the step
budget ran out, or rules were nested too deeply.  A syntax error reads

    expected ';', '.' or operator, found 'x' in let statement
-/

import Packrat.Diagnostic.Expected
import Packrat.Diagnostic.Report

namespace Packrat

/-- No rule could read on: the place, what was expected there, what was found, and the
construct around it. -/
structure SyntaxError where
  position : Position
  offset : Nat
  size : Nat
  expected : List String
  found : String
  context : Context
  deriving DecidableEq, Repr

namespace SyntaxError

/-- A syntax error at a token with the text `found`, or at the end of the text. -/
def of (position : Position) (offset size : Nat) (found : Option String)
    (expected : List Expected) (context : Context) : SyntaxError where
  position := position
  offset := offset
  size := size
  expected := Expected.names expected
  found := match found with
    | some text => "'" ++ text ++ "'"
    | none => "end of file"
  context := context

/-- The error in words, without its position. -/
def message (e : SyntaxError) : String :=
  if e.expected.isEmpty then s!"unexpected {e.found} {e.context.description}"
  else
    let alternatives := Expected.joinAlternatives e.expected
    s!"expected {alternatives}, found {e.found} {e.context.description}"

/-- What decides the code of a syntax error, the first expected name of the list. -/
def priorities : List (String × ErrorCode) :=
  [("';'", .missingSemicolon), ("'\x7d'", .missingBrace), ("')'", .missingParen),
   ("']'", .missingBracket), ("'>'", .missingAngle), ("expression", .missingExpression),
   ("type", .missingType), ("pattern", .missingPattern), ("item", .missingItem),
   ("end of file", .trailingInput), ("identifier", .missingName)]

/-- The texts of comparison operators, as they are found. -/
def comparisons : List String := ["'<'", "'>'", "'<='", "'>='", "'=='", "'!='"]

/-- A comparison stands where only further operators could follow an operand. -/
def isChainedComparison (e : SyntaxError) : Bool :=
  comparisons.contains e.found && e.expected.contains "operator"
    && !e.expected.contains "expression" && !e.context.isTypePosition

/-- The code of a syntax error. -/
def code (e : SyntaxError) : ErrorCode :=
  if e.isChainedComparison then .chainedComparison
  else ((priorities.find? fun p => e.expected.contains p.1).map (·.2)).getD .unexpectedToken

end SyntaxError

/-- Why there is no tree. -/
inductive ParseError where
  | syntaxError (e : SyntaxError)
  | budget (steps : Nat)
  | depth (limit : Nat)
  deriving DecidableEq, Repr

namespace ParseError

/-- The error in words, without a position. -/
def shortMessage : ParseError → String
  | syntaxError e => e.message
  | budget steps => s!"parse budget of {steps} steps exceeded"
  | depth limit => s!"input nested deeper than {limit} rule applications"

/-- The error in words, with the position of a syntax error. -/
def message : ParseError → String
  | syntaxError e => s!"{e.message} at line {e.position.line}, column {e.position.column}"
  | e => e.shortMessage

/-- The position of a syntax error. -/
def position? : ParseError → Option Position
  | syntaxError e => some e.position
  | _ => none

/-- The code of a parse error. -/
def code : ParseError → ErrorCode
  | syntaxError e => e.code
  | budget _ => .budgetExceeded
  | depth _ => .nestingTooDeep

/-- What may be done about an error. -/
def hint? : ErrorCode → Option String
  | .missingSemicolon => some "add ';' to end the statement"
  | .chainedComparison => some "use parentheses to group comparisons"
  | .budgetExceeded => some "raise the step budget in ParseOptions for large inputs"
  | .nestingTooDeep => some "raise the depth limit in ParseOptions for deeply nested input"
  | _ => none

/-- The diagnostic of a parse error. -/
def diagnostic (e : ParseError) : Diagnostic :=
  let start : Diagnostic :=
    { Diagnostic.atOffset e.code e.shortMessage 0 with hint := hint? e.code }
  match e with
  | syntaxError s => { start with
      range := ⟨s.offset, s.offset + s.size⟩
      position := s.position
      context := some s.context }
  | _ => start

end ParseError
end Packrat
