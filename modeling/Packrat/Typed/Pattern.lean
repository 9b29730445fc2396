/-
# Patterns

The parts of patterns.  A field of a record pattern is named before a colon or, in the
short form, by the variable that it binds.
-/

import Packrat.Typed.Name

namespace Packrat

namespace IdentPat

/-- The value is bound by reference. -/
def isRef (p : IdentPat) : Bool := p.node.has .refKw

end IdentPat

namespace LiteralPat

/-- The literal. -/
def literal? (p : LiteralPat) : Option Literal := p.node.view?

/-- A minus sign stands before the literal. -/
def isNegative (p : LiteralPat) : Bool := p.node.has .minus

end LiteralPat

/-- The tokens between the bounds of a range of patterns. -/
def isRangeMark : Kind → Bool
  | .dotDot | .dotDotEq | .dotDotDot => true
  | _ => false

namespace RangePat

/-- The token between the bounds. -/
def mark? (p : RangePat) : Option Located := p.node.tokens.find? (isRangeMark ·.kind)

/-- The lower bound. -/
def start? (p : RangePat) : Option Pat := do
  let first ← p.pat?
  let mark ← p.mark?
  if first.node.stop ≤ mark.start then some first else none

/-- The upper bound. -/
def stop? (p : RangePat) : Option Pat :=
  p.mark?.bind fun mark => (p.node.nodesFrom mark.stop).findSome? Located.as?

/-- The upper bound belongs to the range. -/
def isInclusive (p : RangePat) : Bool := p.mark?.any (·.kind != .dotDot)

end RangePat

namespace RecordPatFieldList

/-- The fields that are matched. -/
def fields (l : RecordPatFieldList) : List RecordPatField := l.node.views

/-- The mark for all other fields. -/
def rest? (l : RecordPatFieldList) : Option RestPat := l.node.view?

end RecordPatFieldList

namespace RecordPat

/-- The fields in braces. -/
def fieldList? (p : RecordPat) : Option RecordPatFieldList := p.node.view?

end RecordPat

namespace RecordPatField

/-- The name of the field. -/
def fieldName? (f : RecordPatField) : Option String :=
  match f.nameRef? with
  | some n => some n.text
  | none => do
    let p ← f.pat?
    let bound : IdentPat ← p.node.as?
    bound.name?.map Name.text

end RecordPatField
end Packrat
