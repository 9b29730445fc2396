/-
# Lossless trees

A tree over a whole text: its leaves are all tokens and all trivia, in order, so that
their texts are the text.  Trees hold no offsets; `Tree/Located` computes them.
-/

import Packrat.Kind.Tag

namespace Packrat

/-- A token or trivia with its text, or a node with its children. -/
inductive Tree where
  | token (kind : Kind) (text : String)
  | node (kind : Kind) (children : List Tree)
  deriving Repr

namespace Tree

instance : Inhabited Tree := ⟨.token .error ""⟩

/-- The kind of the token or node. -/
def kind : Tree → Kind
  | token kind _ | node kind _ => kind

/-- The tree is a node. -/
def isNode : Tree → Bool
  | token .. => false
  | node .. => true

/-- The trees right below a node. -/
def children : Tree → List Tree
  | token .. => []
  | node _ children => children

mutual

/-- Number of bytes under a tree. -/
def size : Tree → Nat
  | token _ text => text.utf8ByteSize
  | node _ children => sizeAll children

/-- Number of bytes under some trees. -/
def sizeAll : List Tree → Nat
  | [] => 0
  | t :: ts => t.size + sizeAll ts

end

mutual

/-- Kinds and texts of the leaves of a tree, in order, before `rest`. -/
def leavesBefore (rest : List (Kind × String)) : Tree → List (Kind × String)
  | token kind text => (kind, text) :: rest
  | node _ children => leavesBeforeAll rest children

/-- Kinds and texts of the leaves of some trees, in order, before `rest`. -/
def leavesBeforeAll (rest : List (Kind × String)) : List Tree → List (Kind × String)
  | [] => rest
  | t :: ts => t.leavesBefore (leavesBeforeAll rest ts)

end

/-- Kinds and texts of the leaves of a tree, in order. -/
def leaves (t : Tree) : List (Kind × String) := t.leavesBefore []

/-- The text under a tree. -/
def text (t : Tree) : String := String.join (t.leaves.map (·.2))

/-- Texts of the significant leaves of a tree. -/
def significantTexts (t : Tree) : List String :=
  (t.leaves.filter (·.1.isSignificant)).map (·.2)

/-- The texts of the tokens under a tree, without its trivia. -/
def plainText (t : Tree) : String :=
  String.join ((t.leaves.filter (!·.1.isTrivia)).map (·.2))

mutual

/-- The tree in brackets: the kind of each node, the text of each significant token. -/
def outline : Tree → String
  | token _ text => text
  | node kind children => "(" ++ kind.tag ++ outlineAll children ++ ")"

/-- Some trees, each behind a space; trivia and the end of the text are left out. -/
def outlineAll : List Tree → String
  | [] => ""
  | token kind text :: ts =>
    if kind.isSignificant then " " ++ text ++ outlineAll ts else outlineAll ts
  | node kind children :: ts => " " ++ (node kind children).outline ++ outlineAll ts

end

end Tree
end Packrat
