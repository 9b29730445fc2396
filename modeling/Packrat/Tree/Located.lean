/-
# Places in a tree

A tree with the byte offset where it starts, its parent's kind and what stands before it
under the same parent.
-/

import Packrat.Text.Position
import Packrat.Tree

namespace Packrat

/-- A tree at its place in a larger one. -/
structure Located where
  tree : Tree
  start : Nat := 0
  /-- The kind of the node around it. -/
  parent : Option Kind := none
  /-- The trees before it under the same node, the nearest first. -/
  before : List Tree := []
  deriving Repr, Inhabited

namespace Located

/-- The kind of the token or node. -/
def kind (n : Located) : Kind := n.tree.kind

/-- The text under it. -/
def text (n : Located) : String := n.tree.text

/-- The offset behind it. -/
def stop (n : Located) : Nat := n.start + n.tree.size

/-- The bytes it covers. -/
def range (n : Located) : Range := ⟨n.start, n.stop⟩

/-- Some trees under a node, located from an offset on. -/
def locate (parent : Kind) : Nat → List Tree → List Tree → List Located
  | _, _, [] => []
  | start, before, t :: ts =>
    ⟨t, start, some parent, before⟩ :: locate parent (start + t.size) (t :: before) ts

/-- What is right below a node: nodes, tokens and trivia. -/
def children (n : Located) : List Located := locate n.kind n.start [] n.tree.children

/-- The nodes right below a node. -/
def nodes (n : Located) : List Located := n.children.filter (·.tree.isNode)

/-- The tokens and trivia right below a node. -/
def tokens (n : Located) : List Located := n.children.filter (!·.tree.isNode)

mutual

/-- A tree and all below it, parents first, before `rest`. -/
def preorderBefore (rest : List (Nat × Located)) (depth start : Nat) (parent : Option Kind)
    (before : List Tree) : Tree → List (Nat × Located)
  | .token kind text => (depth, ⟨.token kind text, start, parent, before⟩) :: rest
  | .node kind children =>
    (depth, ⟨.node kind children, start, parent, before⟩) ::
      preorderBeforeAll rest (depth + 1) start kind [] children

/-- Some trees under a node and all below them, parents first, before `rest`. -/
def preorderBeforeAll (rest : List (Nat × Located)) (depth start : Nat) (parent : Kind)
    (before : List Tree) : List Tree → List (Nat × Located)
  | [] => rest
  | t :: ts =>
    preorderBefore (preorderBeforeAll rest depth (start + t.size) parent (t :: before) ts)
      depth start (some parent) before t

end

/-- A tree and all below it with their depths, parents first. -/
def preorder (n : Located) : List (Nat × Located) :=
  preorderBefore [] 0 n.start n.parent n.before n.tree

/-- A node and all nodes below it, parents first. -/
def descendants (n : Located) : List Located :=
  (n.preorder.map (·.2)).filter (·.tree.isNode)

/-- All tokens and trivia under a tree. -/
def leaves (n : Located) : List Located := (n.preorder.map (·.2)).filter (!·.tree.isNode)

/-- The significant tokens under a tree. -/
def significantTokens (n : Located) : List Located := n.leaves.filter (·.kind.isSignificant)

mutual

/-- The first significant token under a tree that starts at `start`. -/
def firstIn? (start : Nat) : Tree → Option Located
  | .token kind text =>
    if kind.isSignificant then some ⟨.token kind text, start, none, []⟩ else none
  | .node _ children => firstInAll? start children

/-- The first significant token under some trees. -/
def firstInAll? (start : Nat) : List Tree → Option Located
  | [] => none
  | t :: ts => (firstIn? start t).or (firstInAll? (start + t.size) ts)

end

mutual

/-- The last significant token under a tree that starts at `start`. -/
def lastIn? (start : Nat) : Tree → Option Located
  | .token kind text =>
    if kind.isSignificant then some ⟨.token kind text, start, none, []⟩ else none
  | .node _ children => lastInAll? start children

/-- The last significant token under some trees. -/
def lastInAll? (start : Nat) : List Tree → Option Located
  | [] => none
  | t :: ts => (lastInAll? (start + t.size) ts).or (lastIn? start t)

end

/-- The first significant token under a tree. -/
def firstSignificant? (n : Located) : Option Located := firstIn? n.start n.tree

/-- The last significant token under a tree. -/
def lastSignificant? (n : Located) : Option Located := lastIn? n.start n.tree

/-- A tree named by its kind and range. -/
def nodeName (n : Located) : String := s!"{n.kind.tag}@{n.start}..{n.stop}"

/-- A token named by its kind, range and text. -/
def tokenName (n : Located) : String := n.nodeName ++ " " ++ n.text

end Located
end Packrat
