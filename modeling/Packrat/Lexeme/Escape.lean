/-
# Escapes

What may follow a backslash in a literal:

| after the backslash | where |
| --- | --- |
| `n`, `r`, `t`, `\`, `0`, `'`, `"` | everywhere |
| `x` and two hexadecimal digits | up to `7F`; any value in byte literals |
| `u`, then up to six hexadecimal digits in braces, `_` ignored | not in byte literals |
| a line feed, or a return and a line feed | in strings |

A hexadecimal number may begin with a plus sign, which counts as one of its places.
-/

import Packrat.Lexeme.Fault

namespace Packrat
namespace Lexeme

/-- The value of a hexadecimal digit. -/
def hexDigit? (c : Char) : Option Nat :=
  if '0' ≤ c ∧ c ≤ '9' then some (c.toNat - '0'.toNat)
  else if 'a' ≤ c ∧ c ≤ 'f' then some (c.toNat - 'a'.toNat + 10)
  else if 'A' ≤ c ∧ c ≤ 'F' then some (c.toNat - 'A'.toNat + 10)
  else none

/-- The value of a non-empty run of hexadecimal digits read after `value`. -/
def hexDigits? (value : Nat) : List Char → Option Nat
  | [] => some value
  | c :: cs => (hexDigit? c).bind fun d => hexDigits? (value * 16 + d) cs

/-- The value of a hexadecimal number: one optional plus sign, then at least one digit. -/
def hexNumber? (cs : List Char) : Option Nat :=
  let digits := if cs.head? = some '+' then cs.tail else cs
  if digits.isEmpty then none else hexDigits? 0 digits

/-- Number of characters of a braced escape whose text after the opening brace is `body`. -/
def bracedSize? (body : List Char) : Option Nat :=
  let inner := body.takeWhile (· ≠ '\x7d')
  if inner.length = body.length then none
  else
    let digits := inner.filter (· ≠ '_')
    if digits.length > 6 then none
    else (hexNumber? digits).bind fun v =>
      if v.isValidChar then some (inner.length + 3) else none

/-- Number of characters of the escape at the start of the text after a backslash. -/
def escapeSize? (bytesOnly inString : Bool) : List Char → Option Nat
  | [] => none
  | c :: cs =>
    if c = 'n' ∨ c = 'r' ∨ c = 't' ∨ c = '\\' ∨ c = '0' ∨ c = '\'' ∨ c = '"' then some 1
    else if c = 'x' then
      match cs with
      | a :: b :: _ => (hexNumber? [a, b]).bind fun v =>
        if v ≤ 0x7F || bytesOnly then some 3 else none
      | _ => none
    else if c = 'u' then
      match cs with
      | '\x7b' :: body => if bytesOnly then none else bracedSize? body
      | _ => none
    else if c = '\n' then if inString then some 1 else none
    else if c = '\r' then if inString && cs.head? == some '\n' then some 2 else none
    else none

end Lexeme
end Packrat
