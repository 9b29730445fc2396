/-
# Quoted text

The quoted form of a text, between double quotes:

| character | written |
| --- | --- |
| NUL, tab, return, line feed | `\0`, `\t`, `\r`, `\n` |
| quote, backslash | the character after a backslash |
| grapheme extender or unprintable | its code point in hexadecimal, braced after `\u` |
| any other | itself |
-/

import Packrat.Text.ExtendingRanges
import Packrat.Text.UnprintableRanges

namespace Packrat
namespace Text

/-- `c` has a visible form of its own; of the blanks only the space counts. -/
def isPrintable (c : Char) : Bool :=
  if c.toNat < 128 then 0x20 ≤ c.toNat && c.toNat ≤ 0x7E else !inRanges unprintableRanges c

/-- The code point of `c` in hexadecimal, braced after `\u`. -/
def escapeCodePoint (c : Char) : List Char :=
  ['\\', 'u', '\x7b'] ++ Nat.toDigits 16 c.toNat ++ ['\x7d']

/-- One character as it stands inside quotes. -/
def quoteChar (c : Char) : List Char :=
  if c = '\x00' then ['\\', '0']
  else if c = '\t' then ['\\', 't']
  else if c = '\r' then ['\\', 'r']
  else if c = '\n' then ['\\', 'n']
  else if c = '"' ∨ c = '\\' then ['\\', c]
  else if inRanges extendingRanges c || !isPrintable c then escapeCodePoint c
  else [c]

/-- The text between double quotes. -/
def quoted (text : List Char) : List Char := '"' :: text.flatMap quoteChar ++ ['"']

end Text
end Packrat
