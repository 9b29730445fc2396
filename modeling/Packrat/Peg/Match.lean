/-
# Places in a token stream and what terms match

A place is a token and a byte offset inside it.  The offset is zero but inside a
punctuator that has been split, behind its first piece.  Offsets count in 8 bits.

What a term matches is a list of trees over the token stream.  Their leaves are whole
tokens, or parts of one.
-/

import Packrat.Kind.Tag

namespace Packrat
namespace Peg

/-- What the rules see of a token: its kind and its text. -/
structure Symbol where
  kind : Kind
  text : String
  deriving DecidableEq, Repr, Inhabited

/-- A place in a token stream. -/
structure Pos where
  index : Nat := 0
  offset : UInt8 := 0
  deriving DecidableEq, Repr, Inhabited

namespace Pos

/-- Places are ordered by token, then by offset. -/
instance : LT Pos where
  lt p q := p.index < q.index ∨ p.index = q.index ∧ p.offset < q.offset

instance (p q : Pos) : Decidable (p < q) :=
  inferInstanceAs (Decidable (p.index < q.index ∨ p.index = q.index ∧ p.offset < q.offset))

/-- The place is inside a token. -/
def isSplit (p : Pos) : Bool := p.offset ≠ 0

end Pos

/-- A tree over a token stream. -/
inductive Match where
  /-- A whole token, or the bytes of it from the first number up to the second. -/
  | token (index : Nat) (kind : Kind) (part : Option (UInt8 × UInt8))
  | node (kind : Kind) (children : List Match)
  deriving Repr

namespace Match

instance : Inhabited Match := ⟨.node .error []⟩

/-- The kind of the token or node. -/
def kind : Match → Kind
  | token _ kind _ | node kind _ => kind

/-- The trees right below a node. -/
def children : Match → List Match
  | token .. => []
  | node _ children => children

mutual

/-- The place of the first token under a tree. -/
def firstPos? : Match → Option Pos
  | token index _ part => some ⟨index, (part.map (·.1)).getD 0⟩
  | node _ children => firstPosOf? children

/-- The place of the first token under some trees. -/
def firstPosOf? : List Match → Option Pos
  | [] => none
  | m :: ms => m.firstPos?.or (firstPosOf? ms)

end

mutual

/-- The first tree of a kind, parents before children. -/
def find? (kind : Kind) : Match → Option Match
  | token index k part => if k = kind then some (token index k part) else none
  | node k children => if k = kind then some (node k children) else findIn? kind children

/-- The first tree of a kind in some trees. -/
def findIn? (kind : Kind) : List Match → Option Match
  | [] => none
  | m :: ms => (m.find? kind).or (findIn? kind ms)

end

mutual

/-- Kinds in brackets. -/
def outline : Match → String
  | token _ kind _ => kind.tag
  | node kind children => "(" ++ kind.tag ++ outlineAll children ++ ")"

/-- Some trees, each behind a space. -/
def outlineAll : List Match → String
  | [] => ""
  | m :: ms => " " ++ m.outline ++ outlineAll ms

end

mutual

/-- Every tree with its depth, parents before children. -/
def preorder (depth : Nat) : Match → List (Nat × Match)
  | token index kind part => [(depth, token index kind part)]
  | node kind children => (depth, node kind children) :: preorderAll (depth + 1) children

/-- Every tree under some trees with its depth. -/
def preorderAll (depth : Nat) : List Match → List (Nat × Match)
  | [] => []
  | m :: ms => m.preorder depth ++ preorderAll depth ms

end

end Match
end Peg
end Packrat
