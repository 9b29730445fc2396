/-
# Names, paths and attributes

A raw identifier names the same thing as the identifier behind its mark.  The text of a
path holds its tokens alone.
-/

import Packrat.Text.Measure
import Packrat.Typed.Part

namespace Packrat

/-- An identifier without the mark of raw identifiers. -/
def withoutRawMark (s : String) : String :=
  ((Text.afterPrefix? ['r', '#'] s.toList).map String.ofList).getD s

namespace View

variable {accepts : Kind → Bool}

/-- The identifier of a declared name. -/
def identifier? (v : View accepts) : Option Located := v.node.firstToken?

end View

namespace Name

/-- The name, without the mark of raw identifiers. -/
def text (n : Name) : String := n.identifier?.elim "" fun t => withoutRawMark t.text

end Name

namespace NameRef

/-- The token that names; `crate` in `$crate`. -/
def token? (n : NameRef) : Option Located := n.node.lastToken?

/-- The name, without the mark of raw identifiers. -/
def text (n : NameRef) : String := n.token?.elim "" fun t => withoutRawMark t.text

/-- The name is `self`. -/
def isSelf (n : NameRef) : Bool := n.node.has .selfKw

/-- The name is `super`. -/
def isSuper (n : NameRef) : Bool := n.node.has .superKw

/-- The name is `crate`. -/
def isCrate (n : NameRef) : Bool := n.node.has .crateKw

end NameRef

namespace PathSegment

/-- The types in parentheses. -/
def parenArgs? (s : PathSegment) : Option (List Ty) :=
  (s.node.view? : Option ParenArgList).map (·.types)

/-- Generic arguments follow a double colon. -/
def hasTurbofish (s : PathSegment) : Bool := s.node.has .colonColon

end PathSegment

namespace Path

/-- The segments, from left to right. -/
def segments (p : Path) : List PathSegment := p.node.views

/-- The type that the path starts from. -/
def qualifier? (p : Path) : Option QualifiedPathType := p.node.view?

/-- The path begins with a double colon. -/
def isGlobal (p : Path) : Bool :=
  (p.node.children.find? (!·.kind.isTrivia)).any (·.kind == .colonColon)

/-- The path as it is written, without trivia. -/
def text (p : Path) : String := p.node.plainText

/-- The name that the path consists of: one segment, without generic arguments. -/
def singleName? (p : Path) : Option String :=
  if p.qualifier?.isSome || p.isGlobal then none
  else match p.segments with
    | [s] => if s.genericArgList?.isSome then none else s.nameRef?.map NameRef.text
    | _ => none

end Path

namespace QualifiedPathType

/-- The trait whose part the path names. -/
def traitPath? (q : QualifiedPathType) : Option Path := if q.node.has .asKw then q.path? else none

end QualifiedPathType

namespace View

variable {accepts : Kind → Bool}

/-- The contents of an attribute. -/
def attrBody? (v : View accepts) : Option AttrBody := v.node.view?

/-- The path that an attribute begins with. -/
def attrName? (v : View accepts) : Option String := v.attrBody?.bind fun b => b.path?.map Path.text

end View

namespace TokenTree

/-- The opening delimiter. -/
def delimiter? (t : TokenTree) : Option Kind := t.node.firstToken?.map Located.kind

/-- The groups right inside a group. -/
def subtrees (t : TokenTree) : List TokenTree := t.node.views

/-- All tokens of a group, delimiters and inner groups included. -/
def tokens (t : TokenTree) : List Located := t.node.leaves.filter (!·.kind.isTrivia)

end TokenTree

/-- From where an item can be seen. -/
inductive Visibility.Scope where
  | everywhere
  | crate
  | here
  | parent
  | path (p : Path)
  | bareCrate

namespace Visibility

/-- From where an item can be seen: a path wins over the words in the parentheses. -/
def scope (v : Visibility) : Scope :=
  match v.path? with
  | some p => .path p
  | none =>
    if !v.node.has .pubKw then .bareCrate
    else if v.node.has .crateKw then .crate
    else if v.node.has .selfKw then .here
    else if v.node.has .superKw then .parent
    else .everywhere

/-- The name of a scope. -/
def Scope.tag : Scope → String
  | everywhere => "Pub"
  | crate => "PubCrate"
  | here => "PubSelf"
  | parent => "PubSuper"
  | path p => s!"PubIn({p.text})"
  | bareCrate => "Crate"

end Visibility
end Packrat
