/-
# Lines, columns and ranges

Lines count from 1, columns from 0 in characters.  A `Span` runs from a position
up to, and without, another one; a `Range` does the same with byte offsets.
-/

namespace Packrat

/-- A place in a text: a 1-based line and a 0-based column in characters.  The
default is the start of a file. -/
structure Position where
  line : Nat := 1
  column : Nat := 0
  deriving DecidableEq, Repr, Inhabited

namespace Position

/-- `p` comes before `q` when its line is smaller, or the line is the same and
the column is smaller. -/
instance : LT Position where
  lt p q := p.line < q.line ∨ p.line = q.line ∧ p.column < q.column

instance (p q : Position) : Decidable (p < q) :=
  inferInstanceAs (Decidable (p.line < q.line ∨ p.line = q.line ∧ p.column < q.column))

end Position

/-- The positions from `start` up to, and without, `stop`. -/
structure Span where
  start : Position
  stop : Position
  deriving DecidableEq, Repr

namespace Span

/-- A position lies in a span when it is not before the start and before the end. -/
def contains (s : Span) (p : Position) : Bool :=
  decide (¬ p < s.start) && decide (p < s.stop)

/-- Number of lines a span touches, counted in 32 bits. -/
def lineCount (s : Span) : Nat :=
  (UInt32.ofNat s.stop.line - UInt32.ofNat s.start.line + 1).toNat

end Span

/-- The bytes from `start` up to, and without, `stop`. -/
structure Range where
  start : Nat
  stop : Nat
  deriving DecidableEq, Repr, Inhabited

/-- Number of bytes of a range. -/
def Range.size (r : Range) : Nat := r.stop - r.start

end Packrat
