/-
# Rules and errors of a grammar
-/

import Packrat.Diagnostic.Context
import Packrat.Peg.Term

namespace Packrat
namespace Peg

/-- A named rule of a grammar. -/
structure Rule where
  name : String
  /-- The node that wraps what the rule matches; without one it goes to the caller. -/
  kind : Option Kind := none
  /-- What the rule is called when it fails without having read anything. -/
  label : Option String := none
  /-- The construct named for failures inside the rule. -/
  context : Option Context := none
  body : Term

/-- Why rules make no grammar. -/
inductive GrammarError where
  | duplicateRule (name : String)
  | unknownRule (rule target : String)
  | leftRecursion (cycle : List String)
  | tooManyRules
  /-- A rule was looked up by a number that none of `size` rules has. -/
  | noRule (id size : Nat)
  deriving DecidableEq, Repr

/-- A name between the quotes that messages about a grammar use. -/
def tick (name : String) : String := "\x60" ++ name ++ "\x60"

/-- The error in words. -/
def GrammarError.message : GrammarError → String
  | duplicateRule name => "rule " ++ tick name ++ " is defined twice"
  | unknownRule rule target => "rule " ++ tick rule ++ " refers to undefined rule " ++ tick target
  | leftRecursion cycle => "left recursion through " ++ " -> ".intercalate cycle
  | tooManyRules => "too many rules"
  | noRule id size => s!"index out of bounds: the len is {size} but the index is {id}"

end Peg
end Packrat
