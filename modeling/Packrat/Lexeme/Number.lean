/-
# Numbers

A number starts with a decimal digit:

* `0x`, `0o` and `0b` take digits of their base and `_`, at least one digit, and no
  decimal digit beyond the base;
* right after a single `.` only digits are taken, so that `t.0.1` has two indices;
* otherwise digits, then a point unless a second point or a name follows it, then an
  exponent, then a suffix that reads like an identifier.

A point, an exponent or a suffix in `f` makes a float.
-/

import Packrat.Lexeme.Fault
import Packrat.Text.Identifier
import Packrat.Kind

namespace Packrat
namespace Lexeme

open Text

/-- A decimal digit or a separator. -/
def isDigitOrUnderscore (c : Char) : Bool := c.isDigit || c == '_'

/-- Number of characters in the run of digits and separators at the start of a text. -/
def digitRun (cs : List Char) : Nat := (cs.takeWhile isDigitOrUnderscore).length

/-- Size of a suffix: an identifier run, if the text starts like an identifier. -/
def suffixSize (cs : List Char) : Nat :=
  match cs with
  | c :: _ => if c = '_' || isIdStart c then idRun cs else 0
  | [] => 0

/-- A digit in base 2, 8 or 16. -/
def isDigitIn (base : Nat) (c : Char) : Bool :=
  if base = 16 then c.isDigit || ('a' ≤ c && c ≤ 'f') || ('A' ≤ c && c ≤ 'F')
  else '0' ≤ c && c.toNat < '0'.toNat + base

/-- The base that a letter after `0` announces. -/
def base? : Char → Option Nat
  | 'x' => some 16
  | 'o' => some 8
  | 'b' => some 2
  | _ => none

/-- Size of a number in a base, from the text after its letter. -/
def basedSize (base : Nat) (cs : List Char) : Except LexFault Nat :=
  let places := cs.takeWhile fun c => c == '_' || isDigitIn base c
  let rest := cs.drop places.length
  if (rest.head?.any Char.isDigit) || !places.any (isDigitIn base) then .error .invalidNumber
  else .ok (places.length + suffixSize rest)

/-- Size of a fraction with its point.  There is none when another point or a name
follows the point. -/
def fractionSize (cs : List Char) : Nat :=
  match cs with
  | '.' :: rest =>
    match rest with
    | c :: _ =>
      if c = '.' || c = '_' || isIdStart c then 0
      else if c.isDigit then 1 + digitRun rest
      else 1
    | [] => 1
  | _ => 0

/-- Size of an exponent: `e`, a sign if any, separators and at least one digit. -/
def exponentSize (cs : List Char) : Nat :=
  match cs with
  | c :: rest =>
    if c = 'e' ∨ c = 'E' then
      let sign := if rest.head? = some '+' ∨ rest.head? = some '-' then 1 else 0
      let places := rest.drop sign
      if (places.dropWhile (· = '_')).head?.any Char.isDigit then 1 + sign + digitRun places
      else 0
    else 0
  | [] => 0

/-- Kind and size of a decimal number after its first digit. -/
def decimalSize (cs : List Char) : Kind × Nat :=
  let whole := digitRun cs
  let fraction := fractionSize (cs.drop whole)
  let exponent := exponentSize (cs.drop (whole + fraction))
  let read := whole + fraction + exponent
  let suffix := cs.drop read
  let float := 0 < fraction || 0 < exponent || suffix.head? == some 'f'
  (if float then .floatNumber else .intNumber, read + suffixSize suffix)

/-- The text before a number, last character first, ends in a single point. -/
def isAfterPoint : List Char → Bool
  | '.' :: '.' :: _ => false
  | '.' :: _ => true
  | _ => false

/-- Kind and size of a number after its first digit. -/
def numberSize (before : List Char) (first : Char) (cs : List Char) :
    Except LexFault (Kind × Nat) :=
  match cs.head?.bind base?, first with
  | some base, '0' => (basedSize base cs.tail).map fun n => (.intNumber, n + 1)
  | _, _ => .ok (if isAfterPoint before then (.intNumber, digitRun cs) else decimalSize cs)

end Lexeme
end Packrat
