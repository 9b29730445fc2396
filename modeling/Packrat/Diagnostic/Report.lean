/-
# Diagnostics

A diagnostic is an error in the form that editors and reports take: a code, a message,
a range with the position where it starts, and possibly a hint and related places.
-/

import Packrat.Diagnostic.Code
import Packrat.Diagnostic.Context

namespace Packrat

/-- How bad a diagnostic is. -/
inductive Severity where
  | error | warning | hint
  deriving DecidableEq, Repr, Inhabited

namespace Severity

/-- The severity in lower case. -/
def word : Severity → String
  | error => "error"
  | warning => "warning"
  | hint => "hint"

/-- Only an error is one. -/
def isError (s : Severity) : Bool := s == error

end Severity

/-- Another place that a diagnostic points to. -/
structure Related where
  message : String
  range : Range
  deriving DecidableEq, Repr

/-- A located and classified error. -/
structure Diagnostic where
  code : ErrorCode
  message : String
  range : Range
  position : Position := {}
  severity : Severity := .error
  context : Option Context := none
  hint : Option String := none
  related : List Related := []
  deriving DecidableEq, Repr

namespace Diagnostic

/-- A diagnostic at an empty range. -/
def atOffset (code : ErrorCode) (message : String) (offset : Nat) : Diagnostic :=
  ⟨code, message, ⟨offset, offset⟩, {}, .error, none, none, []⟩

/-- The diagnostic with another hint. -/
def withHint (d : Diagnostic) (hint : String) : Diagnostic := { d with hint := some hint }

/-- The diagnostic with one more related place. -/
def withRelated (d : Diagnostic) (r : Related) : Diagnostic :=
  { d with related := d.related ++ [r] }

/-- The diagnostic with another severity. -/
def withSeverity (d : Diagnostic) (s : Severity) : Diagnostic := { d with severity := s }

/-- Code, position and message on one line, and the hint on a second. -/
def format (d : Diagnostic) : String :=
  let place := s!"{d.code.tag} [{d.position.line}:{d.position.column}]: {d.message}"
  match d.hint with
  | some hint => place ++ "\n  hint: " ++ hint
  | none => place

/-- A diagnostic in the making: message and range may still be missing. -/
structure Draft where
  code : ErrorCode
  message : Option String := none
  range : Option Range := none
  position : Position := {}
  severity : Severity := .error
  context : Option Context := none
  hint : Option String := none
  related : List Related := []

/-- The finished diagnostic: the code's default message and the start of the text stand
in for what is missing. -/
def Draft.finish (d : Draft) : Diagnostic where
  code := d.code
  message := d.message.getD d.code.defaultMessage
  range := d.range.getD ⟨0, 0⟩
  position := d.position
  severity := d.severity
  context := d.context
  hint := d.hint
  related := d.related

/-- The diagnostic of a lexical error. -/
def ofLexError (e : LexError) : Diagnostic :=
  { atOffset (.ofFault e.fault) e.fault.message e.offset with position := e.position }

end Diagnostic
end Packrat
