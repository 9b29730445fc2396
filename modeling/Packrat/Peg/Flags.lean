/-
# Flags

What the surroundings allow at a place.  Rules pass flags down and ask for them; a
result holds for one setting of the flags only.
-/

namespace Packrat
namespace Peg

/-- The flags in force. -/
structure Flags where
  /-- Struct literals are not allowed: the head of `if`, `while`, `for` or `match`. -/
  noStruct : Bool := false
  /-- `let` expressions are allowed: the condition of `if` or `while`. -/
  letAllowed : Bool := false
  deriving DecidableEq, Repr, Inhabited

namespace Flags

/-- No flag. -/
def none : Flags := {}

/-- Struct literals are not allowed. -/
def noStructs : Flags := { noStruct := true }

/-- `let` expressions are allowed. -/
def lets : Flags := { letAllowed := true }

/-- Every flag. -/
def all : Flags := ⟨true, true⟩

/-- Flags set in either. -/
def union (a b : Flags) : Flags := ⟨a.noStruct || b.noStruct, a.letAllowed || b.letAllowed⟩

/-- Flags of `a` that are not in `b`. -/
def diff (a b : Flags) : Flags := ⟨a.noStruct && !b.noStruct, a.letAllowed && !b.letAllowed⟩

/-- Some flag is set in both. -/
def intersects (a b : Flags) : Bool := a.noStruct && b.noStruct || a.letAllowed && b.letAllowed

/-- The flags as bits, `noStruct` lowest. -/
def bits (a : Flags) : UInt8 := (if a.noStruct then 1 else 0) ||| (if a.letAllowed then 2 else 0)

end Flags
end Peg
end Packrat
