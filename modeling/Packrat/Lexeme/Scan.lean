/-
# Lexemes

A text is cut into lexemes from left to right.  At each place one recogniser, chosen
by the first characters, tells how many characters belong to the lexeme and of what
kind it is, or what is wrong there.  After a fault the cut goes on behind what the
recogniser had taken, so that a text is always read to its end.

A leading `#!` line is a lexeme of its own, unless `[` follows the mark.
-/

import Packrat.Lexeme.Comment
import Packrat.Lexeme.Number
import Packrat.Lexeme.Quote
import Packrat.Kind.Spelling

namespace Packrat

/-- A piece of text with its kind and the byte offset where it starts. -/
structure Lexeme where
  kind : Kind
  text : List Char
  start : Nat
  deriving DecidableEq, Repr

namespace Lexeme

open Text

/-- The bytes of a lexeme. -/
def range (l : Lexeme) : Range := ⟨l.start, l.start + Text.byteSize l.text⟩

/-- What a recogniser makes of a place: how many characters after the first one it
takes, and their kind or the fault. -/
structure Reading where
  more : Nat
  result : Except LexFault Kind

/-- A reading that takes `more` further characters as a lexeme. -/
def Reading.ok (kind : Kind) (more : Nat) : Reading := ⟨more, .ok kind⟩

/-- A reading that gives up after `more` further characters. -/
def Reading.fault (f : LexFault) (more : Nat) : Reading := ⟨more, .error f⟩

/-- A literal behind an opening mark that takes `opening` characters after the first:
a sized body is taken whole, a fault leaves the mark alone. -/
def Reading.literal (opening : Nat) (body : Except LexFault (Kind × Nat)) : Reading :=
  match body with
  | .ok (kind, n) => .ok kind (opening + n)
  | .error f => .fault f opening

/-- Characters that make up whitespace between tokens. -/
def isSpace (c : Char) : Bool :=
  c == ' ' || ('\t' ≤ c && c ≤ '\r') || c == '\x85' || c == '\u200E' || c == '\u200F'
    || c == '\u2028' || c == '\u2029'

/-- An ASCII letter or `_`. -/
def isAsciiIdStart (c : Char) : Bool := c.isAlpha || c == '_'

/-- A comment to the end of the line, from the text after its first `/`. -/
def scanLineComment (cs : List Char) : Reading :=
  let line := cs.takeWhile fun c => c ≠ '\r' ∧ c ≠ '\n'
  .ok (TriviaKind.ofLineComment ('/' :: line)).kind line.length

/-- A comment up to the first `*/`, from the text after its first `/`.  Without an end
mark the rest of the text is lost. -/
def scanBlockComment (cs : List Char) : Reading :=
  match splitAtFirst? ['*', '/'] cs.tail with
  | some (body, _) =>
    let text := '*' :: body ++ ['*', '/']
    .ok (TriviaKind.ofBlockComment ('/' :: text)).kind text.length
  | none => .fault .unterminatedBlockComment cs.length

/-- A word: a keyword or an identifier. -/
def scanWord (c : Char) (cs : List Char) : Reading :=
  let n := idRun cs
  .ok ((Kind.keyword? (String.ofList (c :: cs.take n))).getD .ident) n

/-- A raw identifier, from the text after `r`. -/
def scanRawWord (cs : List Char) : Reading :=
  let n := idRun cs.tail
  let word := String.ofList (cs.tail.take n)
  if word = "_" ∨ word ∈ Kind.rawForbidden then .fault .reservedRawIdentifier (n + 1)
  else .ok .rawIdent (n + 1)

/-- A raw string opened by number signs and a quote, from the text after the letters,
`opening` of which stand after the first; `none` when no quote follows the signs. -/
def scanRawString? (kind : Kind) (bytesOnly : Bool) (opening : Nat) (cs : List Char) :
    Option Reading :=
  let hashes := (cs.takeWhile (· = '#')).length
  match cs.drop hashes with
  | '"' :: body =>
    some (.literal (opening + hashes + 1)
      ((rawStringSize bytesOnly hashes body).map fun n => (kind, n)))
  | _ => none

/-- The marks that the recogniser of punctuators knows, in families with a common beginning. -/
def marks : List (String × Kind) :=
  [("\x7b", .lBrace), ("\x7d", .rBrace), ("[", .lBracket), ("]", .rBracket), ("(", .lParen),
   (")", .rParen), (";", .semicolon), (",", .comma), (".", .dot), ("..", .dotDot),
   ("...", .dotDotDot), ("..=", .dotDotEq), (":", .colon), ("::", .colonColon), ("=", .eq),
   ("==", .eqEq), ("=>", .fatArrow), ("!", .bang), ("!=", .bangEq), ("<", .lt), ("<=", .ltEq),
   ("<<", .shl), ("<<=", .shlEq), (">", .gt), (">=", .gtEq), (">>", .shr), (">>=", .shrEq),
   ("-", .minus), ("-=", .minusEq), ("->", .thinArrow), ("+", .plus), ("+=", .plusEq),
   ("*", .star), ("*=", .starEq), ("/", .slash), ("/=", .slashEq), ("%", .percent),
   ("%=", .percentEq), ("^", .caret), ("^=", .caretEq), ("&", .amp), ("&&", .ampAmp),
   ("&=", .ampEq), ("|", .pipe), ("||", .pipePipe), ("|=", .pipeEq), ("@", .atSign),
   ("#", .pound), ("$", .dollar), ("?", .question), ("~", .tilde), ("_", .underscore)]

/-- Kind and size of the longest of some marks that a text begins with. -/
def longestMark? (cs : List Char) : List (String × Kind) → Option (Kind × Nat)
  | [] => none
  | (word, kind) :: others =>
    let longest := longestMark? cs others
    if word.toList.isPrefixOf cs && longest.all (·.2 < word.length) then some (kind, word.length)
    else longest

/-- The longest punctuator at the start of a text. -/
def punctuatorAt? (cs : List Char) : Option (Kind × Nat) := longestMark? cs marks

/-- A word that starts with `r`: a raw string, a raw identifier, a plain word, or
number signs that open nothing. -/
def scanR (cs : List Char) : Reading :=
  match scanRawString? .rawString false 0 cs with
  | some reading => reading
  | none =>
    match cs with
    | '#' :: c :: rest =>
      if isAsciiIdStart c then scanRawWord cs
      else if c = '#' then
        .fault .unexpectedChar (2 + (rest.takeWhile (· = '#')).length)
      else .ok .ident 0
    | _ => scanWord 'r' cs

/-- A word that starts with `b`: a byte string, raw or not, a byte, a plain word, or
number signs that open nothing. -/
def scanB (cs : List Char) : Reading :=
  match cs with
  | '"' :: body => .literal 1 ((stringSize true 0 body).map fun n => (.byteString, n))
  | '\'' :: body => .literal 1 ((byteSize body).map fun n => (.byte, n))
  | 'r' :: rest =>
    match scanRawString? .rawByteString true 1 rest with
    | some reading => reading
    | none =>
      if rest.head? = some '#' then
        .fault .unexpectedChar (1 + (rest.takeWhile (· = '#')).length)
      else scanWord 'b' cs
  | _ => scanWord 'b' cs

/-- The reading at `c`, with the text before it, last character first, and the text
after it. -/
def scan (before : List Char) (c : Char) (cs : List Char) : Reading :=
  if isSpace c then .ok .whitespace (cs.takeWhile isSpace).length
  else if c = '/' ∧ cs.head? = some '/' then scanLineComment cs
  else if c = '/' ∧ cs.head? = some '*' then scanBlockComment cs
  else if c = '"' then .literal 0 ((stringSize false 0 cs).map fun n => (.string, n))
  else if c = '\'' then .literal 0 (quoteSize cs)
  else if c = 'r' then scanR cs
  else if c = 'b' then scanB cs
  else if c.isDigit then .literal 0 (numberSize before c cs)
  else if c.isAlpha ∨ c = '_' ∧ cs.head?.any (fun d => d.isAlphanum || d == '_') then
    scanWord c cs
  else if !isAscii c then
    if isIdStart c then scanWord c cs else .fault .unexpectedChar 0
  else if c = '\\' then
    match cs with
    | '\n' :: _ => .ok .whitespace 1
    | '\r' :: '\n' :: _ => .ok .whitespace 2
    | _ => .fault .unexpectedChar 0
  else
    match punctuatorAt? (c :: cs) with
    | some (kind, n) => .ok kind (n - 1)
    | none => .fault .unexpectedChar 0

/-- A lexeme, or a fault at a byte offset. -/
abbrev Item := Except (LexFault × Nat) Lexeme

/-- The items of a text that starts at byte `start`, put after those of `read` (last
first); `before` is the text before it, last character first. -/
def itemsFrom (before : List Char) (start : Nat) (read : List Item) : List Char → List Item
  | [] => read.reverse
  | c :: cs =>
    let reading := scan before c cs
    let text := c :: cs.take reading.more
    let item : Item := match reading.result with
      | .ok kind => .ok ⟨kind, text, start⟩
      | .error f => .error (f, start)
    itemsFrom (text.reverse ++ before) (start + Text.byteSize text) (item :: read)
      (cs.drop reading.more)
termination_by cs => cs.length
decreasing_by simp only [List.length_drop, List.length_cons]; omega

/-- Number of characters of a leading `#!` line, without its line feed.  There is none
when `[` is the first character after the mark that is no space, tab or line break. -/
def shebangSize? (text : List Char) : Option Nat :=
  match text with
  | '#' :: '!' :: rest =>
    let after := rest.dropWhile fun c => c = ' ' ∨ c = '\t' ∨ c = '\r' ∨ c = '\n'
    if after.head? = some '[' then none else some (text.takeWhile (· ≠ '\n')).length
  | _ => none

/-- Every lexeme and fault of a text, in order. -/
def items (text : List Char) : List Item :=
  match shebangSize? text with
  | none => itemsFrom [] 0 [] text
  | some n =>
    let line := text.take n
    itemsFrom [] (Text.byteSize line) [.ok ⟨.shebang, line, 0⟩] (text.drop n)

end Lexeme
end Packrat
