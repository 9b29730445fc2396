/-
# What was expected

A failed parse lists what would have been accepted at the place it reached: tokens,
words and whole constructs.  Each name is listed once, and three operators or more are
called just "operator".
-/

import Packrat.Kind.Spelling

namespace Packrat

/-- Something that would have been accepted. -/
inductive Expected where
  | token (kind : Kind)
  | word (word : String)
  | label (label : String)
  deriving DecidableEq, Repr, Inhabited

namespace Expected

/-- The name of what was expected. -/
def describe : Expected → String
  | token kind => kind.describe
  | word w => "'" ++ w ++ "'"
  | label l => l

/-- The kinds that count as operators in messages. -/
def operators : List Kind :=
  [.plus, .minus, .star, .slash, .percent, .caret, .amp, .pipe, .shl, .shr, .ampAmp,
   .pipePipe, .eqEq, .bangEq, .lt, .gt, .ltEq, .gtEq, .eq, .plusEq, .minusEq, .starEq,
   .slashEq, .percentEq, .caretEq, .ampEq, .pipeEq, .shlEq, .shrEq, .dotDot, .dotDotEq,
   .asKw]

/-- An operator was expected. -/
def isOperator : Expected → Bool
  | token kind => operators.contains kind
  | _ => false

/-- From this many operators on they share one name. -/
def collapseFrom : Nat := 3

/-- The names of what was expected, each once, in the order of their first mention. -/
def names (expected : List Expected) : List String :=
  let collapse := collapseFrom ≤ (expected.filter isOperator).length
  let name (e : Expected) := if collapse && e.isOperator then "operator" else e.describe
  expected.foldl (fun seen e => if seen.contains (name e) then seen else seen ++ [name e]) []

/-- Names as alternatives: commas between them, and "or" before the last. -/
def joinAlternatives : List String → String
  | [] => ""
  | [one] => one
  | many => ", ".intercalate many.dropLast ++ " or " ++ many.getLastD ""

end Expected
end Packrat
