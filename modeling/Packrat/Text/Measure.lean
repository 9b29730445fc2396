/-
# Measuring and cutting text by bytes

Offsets into a text count the bytes of its UTF-8 form, while the text itself is a
list of characters.  An offset is a *boundary* when it falls between two
characters; cutting anywhere else gives nothing.
-/

namespace Packrat
namespace Text

/-- Number of bytes of a text in UTF-8. -/
def byteSize : List Char → Nat
  | [] => 0
  | c :: cs => c.utf8Size + byteSize cs

/-- What is left of a text after its first `n` bytes, if `n` is a boundary. -/
def dropBytes? : Nat → List Char → Option (List Char)
  | 0, cs => some cs
  | _ + 1, [] => none
  | n + 1, c :: cs => if c.utf8Size ≤ n + 1 then dropBytes? (n + 1 - c.utf8Size) cs else none
termination_by structural _ cs => cs

/-- Number of characters in the first `n` bytes of a text, if `n` is a boundary. -/
def charsBefore? (n : Nat) (cs : List Char) : Option Nat :=
  (dropBytes? n cs).map fun rest => cs.length - rest.length

/-- The first `n` bytes of a text, if `n` is a boundary. -/
def takeBytes? : Nat → List Char → Option (List Char)
  | 0, _ => some []
  | _ + 1, [] => none
  | n + 1, c :: cs =>
    if c.utf8Size ≤ n + 1 then (takeBytes? (n + 1 - c.utf8Size) cs).map (c :: ·) else none
termination_by structural _ cs => cs

/-- The bytes of a text from `start` up to, and without, `stop`, if both are boundaries. -/
def slice? (start stop : Nat) (cs : List Char) : Option (List Char) :=
  if start ≤ stop then (dropBytes? start cs).bind (takeBytes? (stop - start)) else none

/-- What follows `pre` in a text that begins with it. -/
def afterPrefix? : List Char → List Char → Option (List Char)
  | [], cs => some cs
  | _ :: _, [] => none
  | p :: ps, c :: cs => if p = c then afterPrefix? ps cs else none

/-- What comes before the first occurrence of `pat` in a text, and what comes
after it. -/
def splitAtFirst? (pat : List Char) : List Char → Option (List Char × List Char)
  | [] => (afterPrefix? pat []).map ([], ·)
  | c :: cs =>
    match afterPrefix? pat (c :: cs) with
    | some rest => some ([], rest)
    | none => (splitAtFirst? pat cs).map fun (before, rest) => (c :: before, rest)

end Text
end Packrat
