/-
# Terms

A term is a piece of a grammar rule's body.  It reads tokens from a place on, and either
matches up to another place or fails:

| term | matches |
| --- | --- |
| `token`, `word`, `any` | one token: of a kind, a name with a text, anything but delimiters |
| `split` | a punctuator, or the leading part of a longer one that was glued to it |
| `ended` | nothing, at the end of the text |
| `seq`, `choice` | terms one after the other; the first term that matches |
| `opt`, `star`, `plus` | at most once; any number of times; at least once |
| `ahead`, `notAhead` | nothing, when the term matches here, or does not |
| `ref` | what a rule matches |
| `node` | what the term matches, wrapped in a node |
| `scoped`, `gate` | the term under changed flags; the term, if the flags are right |
| `fold` | an operand, then tails, each of which wraps all before it in a node |

Rules are named by text until a grammar is linked, and by number from then on.
-/

import Packrat.Kind.Tag
import Packrat.Peg.Flags

namespace Packrat
namespace Peg

/-- A rule, by its name or by its number in a grammar. -/
inductive RuleRef where
  | named (name : String)
  | linked (id : Nat)
  deriving DecidableEq, Repr

/-- A piece of a rule's body. -/
inductive Term where
  | token (kind : Kind)
  | split (kind : Kind)
  | word (text : String)
  | any
  | ended
  | seq (items : List Term)
  | choice (alternatives : List Term)
  | opt (body : Term)
  | star (body : Term)
  | plus (body : Term)
  | ahead (body : Term)
  | notAhead (body : Term)
  | ref (rule : RuleRef)
  | node (kind : Kind) (body : Term)
  | scoped (set clear : Flags) (body : Term)
  | gate (flags : Flags) (whenSet : Bool) (body : Term)
  | fold (operand : Term) (tails : List (Kind × Term)) (max : Option Nat)

namespace Term

instance : Inhabited Term := ⟨.any⟩

/-- Matches nothing, anywhere. -/
def empty : Term := .seq []

/-- The rule of a name. -/
def rule (name : String) : Term := .ref (.named name)

/-- One token of any of the kinds. -/
def anyOf (kinds : List Kind) : Term := .choice (kinds.map .token)

/-- One item or more with separators between them, and perhaps one behind. -/
def list (item : Term) (separator : Kind) : Term :=
  .seq [item, .star (.seq [.token separator, item]), .opt (.token separator)]

/-- The term with more flags set. -/
def withFlags (flags : Flags) (body : Term) : Term := .scoped flags .none body

/-- The term with flags cleared. -/
def withoutFlags (flags : Flags) (body : Term) : Term := .scoped .none flags body

/-- The term, when one of the flags is set. -/
def whenSet (flags : Flags) (body : Term) : Term := .gate flags true body

/-- The term, when none of the flags is set. -/
def whenClear (flags : Flags) (body : Term) : Term := .gate flags false body

mutual

/-- A term in grammar notation.  Flags and tails are left out. -/
def describe : Term → String
  | .token kind | .split kind => kind.tag
  | .word text => "'" ++ text ++ "'"
  | .any => "ANY"
  | .ended => "EOF"
  | .seq items => "(" ++ " ".intercalate (describeAll items) ++ ")"
  | .choice alternatives => "(" ++ " | ".intercalate (describeAll alternatives) ++ ")"
  | .opt body => "(" ++ body.describe ++ ")?"
  | .star body => "(" ++ body.describe ++ ")*"
  | .plus body => "(" ++ body.describe ++ ")+"
  | .ahead body => "&(" ++ body.describe ++ ")"
  | .notAhead body => "!(" ++ body.describe ++ ")"
  | .ref (.named name) => name
  | .ref (.linked id) => "#" ++ toString id
  | .node kind body => kind.tag ++ "[" ++ body.describe ++ "]"
  | .scoped _ _ body | .gate _ _ body => body.describe
  | .fold operand _ _ => "fold(" ++ operand.describe ++ ")"

/-- Each of some terms in grammar notation. -/
def describeAll : List Term → List String
  | [] => []
  | t :: ts => t.describe :: describeAll ts

end

mutual

/-- Number of constructors in a term. -/
def size : Term → Nat
  | .token _ | .split _ | .word _ | .any | .ended | .ref _ => 1
  | .seq items | .choice items => 1 + sizeAll items
  | .opt body | .star body | .plus body | .ahead body | .notAhead body | .node _ body
  | .scoped _ _ body | .gate _ _ body => 1 + body.size
  | .fold operand tails _ => 1 + operand.size + sizeTails tails

/-- Number of constructors in some terms. -/
def sizeAll : List Term → Nat
  | [] => 0
  | t :: ts => 1 + t.size + sizeAll ts

/-- Number of constructors in some tails. -/
def sizeTails : List (Kind × Term) → Nat
  | [] => 0
  | (_, t) :: ts => 1 + t.size + sizeTails ts

end

end Term
end Peg
end Packrat
