/-
# Size of a file

Lines are counted once, however much stands on them: lines of code hold a part of a
token, comment lines hold a letter or digit of a comment behind the first token, and on
executable lines a statement starts.
-/

import Packrat.Bisection
import Packrat.Parse
import Packrat.Text.Alphanumeric
import Packrat.Text.Lines
import Packrat.Typed.Category

namespace Packrat

/-- The distinct numbers of a list in rising order. -/
def distinctSorted (xs : List Nat) : List Nat := xs.foldr insert []
where
  /-- Put a number at its place, unless it is there. -/
  insert (x : Nat) : List Nat → List Nat
    | [] => [x]
    | y :: ys => if x < y then x :: y :: ys else if x = y then y :: ys else y :: insert x ys

namespace TokenStream

/-- The lines that a token covers. -/
def linesOf (t : Token) : List Nat :=
  List.range' t.position.line (Text.lines t.text.toList).length

/-- The lines that hold a part of a token. -/
def codeLines (s : TokenStream) : List Nat :=
  distinctSorted ((s.tokens.toList.filter (·.kind != .eof)).flatMap linesOf)

/-- The lines on which a comment has a letter or a digit. -/
def spokenLines (t : Trivia) : List Nat :=
  ((Text.lines t.body.toList).zipIdx t.position.line).filterMap fun (line, number) =>
    if line.any Text.isAlphanumeric then some number else none

/-- The lines that hold a letter or a digit of a comment; comments in front of the first
token do not count. -/
def commentLines (s : TokenStream) : List Nat :=
  distinctSorted ((s.tokens.toList.drop 1).flatMap fun t => t.comments.flatMap spokenLines)

/-- Number of tokens that start at an offset or before it. -/
def tokensUpTo (s : TokenStream) (offset : Nat) : Nat :=
  bisect (fun i => s.tokens[i]?.any fun t => decide (t.range.start ≤ offset)) 0 s.size

/-- The line of the last token that starts at an offset or before it. -/
def lineAt? (s : TokenStream) (offset : Nat) : Option Nat :=
  match s.tokensUpTo offset with
  | 0 => none
  | i + 1 => s.tokens[i]?.map fun t => t.position.line

end TokenStream

namespace Located

/-- A declaration of variables or an expression with the role of a statement. -/
def isPlainStatement (n : Located) : Bool := n.kind == .letStmt || n.kind == .exprStmt

/-- A statement: a plain one, or an item right in a block.  A macro call right in a block
is the value of the block. -/
def isStatement (n : Located) : Bool :=
  n.isPlainStatement ||
    n.kind != .macroCall && Category.acceptsItem n.kind && n.parent == some .blockExpr

end Located

namespace Parse

/-- The lines on which a plain statement starts. -/
def executableLines (p : Parse) : List Nat :=
  distinctSorted <| (p.root.descendants.filter (·.isPlainStatement)).filterMap fun n => do
    let first ← n.firstSignificant?
    p.stream.lineAt? first.start

end Parse

/-- Sizes of a file. -/
structure Metrics where
  linesOfCode : Nat
  commentLines : Nat
  tokens : Nat
  statements : Nat := 0
  functions : Nat := 0
  executableLines : Nat := 0
  deriving DecidableEq, Repr

namespace Metrics

/-- The sizes that the tokens alone tell. -/
def ofStream (s : TokenStream) : Metrics where
  linesOfCode := s.codeLines.length
  commentLines := s.commentLines.length
  tokens := s.significantSize

/-- All sizes. -/
def ofParse (p : Parse) : Metrics :=
  { ofStream p.stream with
    statements := (p.root.descendants.filter (·.isStatement)).length
    functions := (p.root.descendants.filter (·.kind == .fn)).length
    executableLines := p.executableLines.length }

end Metrics
end Packrat
