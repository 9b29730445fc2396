/-
# Quoted literals

Strings, character literals, lifetimes and raw strings, each from the text after its
opening quote.  Sizes count characters up to and including the closing quote.
-/

import Packrat.Lexeme.Escape
import Packrat.Text.Identifier
import Packrat.Text.Measure
import Packrat.Kind

namespace Packrat
namespace Lexeme

open Text

/-- Size of a string whose first `read` characters have been passed.  It ends at the
first quote outside an escape; a return must stand before a line feed, and a byte
string holds ASCII only. -/
def stringSize (bytesOnly : Bool) (read : Nat) : List Char → Except LexFault Nat
  | [] => .error .unterminatedString
  | c :: cs =>
    if c = '"' then .ok (read + 1)
    else if c = '\\' then
      match escapeSize? bytesOnly true cs with
      | some n => stringSize bytesOnly (read + 1 + n) (cs.drop n)
      | none => .error .invalidEscape
    else if c = '\r' ∧ cs.head? ≠ some '\n' then .error .controlCharacter
    else if bytesOnly && !isAscii c then .error .nonAscii
    else stringSize bytesOnly (read + 1) cs
termination_by cs => cs.length
decreasing_by all_goals grind [List.length_drop]

/-- Size of a character literal, or `none` when the text is not one: it holds one
character or escape and then the closing quote. -/
def charSize? (bytesOnly : Bool) : List Char → Except LexFault (Option Nat)
  | [] => .error .unterminatedChar
  | first :: cs =>
    if first = '\'' then .error .unterminatedChar
    else
      let escape := if first = '\\' then escapeSize? bytesOnly false cs else some 0
      match escape with
      | none => .error .invalidEscape
      | some n =>
        if (cs.drop n).head? ≠ some '\'' then .ok none
        else if first = '\n' ∨ first = '\r' ∨ first = '\t' then .error .controlCharacter
        else if bytesOnly && !isAscii first then .error .nonAscii
        else .ok (some (n + 2))

/-- A lone `'`: a character literal if the text is one, else a lifetime. -/
def quoteSize (cs : List Char) : Except LexFault (Kind × Nat) := do
  match ← charSize? false cs with
  | some n => return (.char, n)
  | none =>
    match cs with
    | c :: _ =>
      if c = '_' || isIdStart c then return (.lifetime, idRun cs) else .error .unterminatedChar
    | [] => .error .unterminatedChar

/-- A byte literal, from the text after `b'`. -/
def byteSize (cs : List Char) : Except LexFault Nat := do
  match ← charSize? true cs with
  | some n => return n
  | none => .error .unterminatedChar

/-- The text holds a return that no line feed follows. -/
def hasBareReturn : List Char → Bool
  | [] => false
  | c :: cs => (c = '\r' && cs.head? != some '\n') || hasBareReturn cs

/-- Size of a raw string opened with `hashes` number signs: it ends at the first quote
that as many follow. -/
def rawStringSize (bytesOnly : Bool) (hashes : Nat) (cs : List Char) : Except LexFault Nat :=
  match splitAtFirst? ('"' :: List.replicate hashes '#') cs with
  | none => .error .unterminatedRawString
  | some (body, _) =>
    if bytesOnly && !body.all isAscii then .error .nonAscii
    else if hasBareReturn body then .error .controlCharacter
    else .ok (body.length + 1 + hashes)

end Lexeme
end Packrat
