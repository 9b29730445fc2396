/-
# Building blocks of rules

Terms that the rules of the language share.  Between two delimiters both flags are
clear: whatever a head or a condition forbids or allows ends at a bracket.
-/

import Packrat.Peg.Rule

namespace Packrat
namespace Language

open Peg

/-- The attributes in front of a construct. -/
def attrs : Term := .rule "attrs"

/-- A visibility, if there is one. -/
def vis : Term := .opt (.rule "visibility")

/-- A term between delimiters, where struct literals are allowed and `let` is not. -/
def fresh (body : Term) : Term := .withoutFlags .all body

/-- What `match` looks at and what `for` runs over: no struct literals and no `let`. -/
def head (body : Term) : Term := .scoped .noStructs .lets body

/-- The condition of `if` and `while`: no struct literals, but `let`. -/
def inCondition (body : Term) : Term := .withFlags .all body

end Language
end Packrat
