/-
# Comments

Comments are classified by the marks they begin with:

| begins with | kind |
| --- | --- |
| `///`, but not `////` | outer doc |
| `//!` | inner doc |
| `//` otherwise | line |
| `/**`, but not `/***`, and the whole is not `/**/` | outer doc |
| `/*!` | inner doc |
| `/*` otherwise | block |
-/

import Packrat.Kind
import Packrat.Text.Measure

namespace Packrat

/-- What a stretch of text between two tokens is. -/
inductive TriviaKind where
  | whitespace | lineComment | blockComment | innerDoc | outerDoc | shebang
  deriving DecidableEq, Repr, Inhabited

namespace TriviaKind

open Text

/-- Every kind of trivia. -/
def all : List TriviaKind :=
  [whitespace, lineComment, blockComment, innerDoc, outerDoc, shebang]

/-- The name of a kind of trivia. -/
def tag : TriviaKind → String
  | whitespace => "Whitespace"
  | lineComment => "LineComment"
  | blockComment => "BlockComment"
  | innerDoc => "InnerDoc"
  | outerDoc => "OuterDoc"
  | shebang => "Shebang"

/-- Anything but whitespace counts as a comment. -/
def isComment (k : TriviaKind) : Bool := k != whitespace

/-- A documentation comment. -/
def isDoc (k : TriviaKind) : Bool := k == innerDoc || k == outerDoc

/-- The kind of the token that the trivia becomes in a tree. -/
def kind : TriviaKind → Kind
  | whitespace => .whitespace
  | lineComment => .lineComment
  | blockComment => .blockComment
  | innerDoc => .innerDocComment
  | outerDoc => .outerDocComment
  | shebang => .shebang

/-- The trivia that a kind of token stands for. -/
def ofKind? : Kind → Option TriviaKind
  | .whitespace => some whitespace
  | .lineComment => some lineComment
  | .blockComment => some blockComment
  | .innerDocComment => some innerDoc
  | .outerDocComment => some outerDoc
  | .shebang => some shebang
  | _ => none

/-- `text` begins with `pre`. -/
def startsWith (pre : String) (text : List Char) : Bool := pre.toList.isPrefixOf text

/-- Class of a comment that runs to the end of its line. -/
def ofLineComment (text : List Char) : TriviaKind :=
  if startsWith "///" text && !startsWith "////" text then outerDoc
  else if startsWith "//!" text then innerDoc
  else lineComment

/-- Class of a comment with an end mark. -/
def ofBlockComment (text : List Char) : TriviaKind :=
  if startsWith "/**" text && !startsWith "/***" text && text ≠ "/**/".toList then outerDoc
  else if startsWith "/*!" text then innerDoc
  else blockComment

/-- The text without `opening` at its start and `*/` at its end, where they stand. -/
def stripBlock (opening : String) (text : List Char) : List Char :=
  let inner := (afterPrefix? opening.toList text).getD text
  ((afterPrefix? ['/', '*'] inner.reverse).map List.reverse).getD inner

/-- The text of a comment without its marks. -/
def body (k : TriviaKind) (text : List Char) : List Char :=
  match k with
  | whitespace | shebang => text
  | lineComment => text.dropWhile (· = '/')
  | outerDoc => (afterPrefix? "///".toList text).getD (stripBlock "/**" text)
  | innerDoc => (afterPrefix? "//!".toList text).getD (stripBlock "/*!" text)
  | blockComment => stripBlock "/*" text

end TriviaKind
end Packrat
