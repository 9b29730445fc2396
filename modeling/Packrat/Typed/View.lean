/-
# Typed views of nodes

A view is a node together with the fact that its kind is one of those that a position
accepts.  The parts of a node are found among what is right below it: by what a position
accepts, by number, or behind a token.  A part that is not there is no error.
-/

import Packrat.Tree.Located
import Packrat.Typed.Category

namespace Packrat

/-- A node of one of the accepted kinds. -/
structure View (accepts : Kind → Bool) where
  node : Located
  accepted : accepts node.kind = true

/-- A position for one kind of node. -/
def only (k : Kind) : Kind → Bool := (· == k)

namespace Located

variable {accepts : Kind → Bool}

/-- The node as a view, if its kind is accepted. -/
def as? (n : Located) : Option (View accepts) :=
  if h : accepts n.kind = true then some ⟨n, h⟩ else none

/-- All accepted nodes right below a node. -/
def views (n : Located) : List (View accepts) := n.nodes.filterMap as?

/-- The first accepted node right below a node. -/
def view? (n : Located) : Option (View accepts) := n.nodes.findSome? as?

/-- The last accepted node right below a node. -/
def lastView? (n : Located) : Option (View accepts) := n.views.getLast?

/-- The second accepted node right below a node. -/
def secondView? (n : Located) : Option (View accepts) := n.views[1]?

/-- The first token of a kind right below a node. -/
def token? (n : Located) (k : Kind) : Option Located := n.tokens.find? (·.kind == k)

/-- A token of a kind is right below a node. -/
def has (n : Located) (k : Kind) : Bool := n.tokens.any (·.kind == k)

/-- The first token right below a node that is not trivia. -/
def firstToken? (n : Located) : Option Located := n.tokens.find? (!·.kind.isTrivia)

/-- The last token right below a node that is not trivia. -/
def lastToken? (n : Located) : Option Located := (n.tokens.filter (!·.kind.isTrivia)).getLast?

/-- The nodes right below a node that start at an offset or behind it. -/
def nodesFrom (n : Located) (offset : Nat) : List Located :=
  n.nodes.filter fun c => decide (offset ≤ c.start)

/-- The first accepted node right below a node, behind its first token of a kind. -/
def viewAfter? (n : Located) (k : Kind) : Option (View accepts) :=
  (n.token? k).bind fun t => (n.nodesFrom t.stop).findSome? as?

/-- Everything under a node that the position accepts, the node itself included. -/
def viewsWithin (n : Located) : List (View accepts) := n.descendants.filterMap as?

/-- The texts of the tokens under a node, without its trivia. -/
def plainText (n : Located) : String := n.tree.plainText

end Located

namespace View

variable {accepts : Kind → Bool}

/-- The kind of the node. -/
def kind (v : View accepts) : Kind := v.node.kind

end View
end Packrat
