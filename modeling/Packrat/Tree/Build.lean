/-
# From matches to lossless trees

What the rules match names tokens by number only.  Building a tree gives them their texts
back and puts in the trivia: those of a token stand before the outermost node that starts
at it.  Pieces of a split token become tokens of their own.  Trivia at the end of the text
and the empty `eof` token close the root.
-/

import Packrat.Peg.Match
import Packrat.Text.Measure
import Packrat.Token.Stream
import Packrat.Tree

namespace Packrat
namespace Tree

open Peg

/-- The leaf of a piece of trivia. -/
def ofTrivia (t : Trivia) : Tree := .token t.kind.kind t.text

/-- The trivia of the tokens from number `done` up to `index`, and the number of the
first token whose trivia have not been put in then. -/
def triviaUpTo (tokens : Array Token) (done index : Nat) : List Tree × Nat :=
  let stop := min (index + 1) tokens.size
  (((tokens.extract done stop).toList.flatMap (·.trivia)).map ofTrivia, max done stop)

/-- The text of a token, or of a part of it. -/
def textOfPart (text : String) : Option (UInt8 × UInt8) → String
  | none => text
  | some (start, stop) =>
    ((Text.slice? start.toNat stop.toNat text.toList).map String.ofList).getD ""

mutual

/-- The trees of a match, with the trivia of the tokens from number `done` on that belong
before or into it. -/
def ofMatch (tokens : Array Token) (done : Nat) : Match → List Tree × Nat
  | .token index kind part =>
    match tokens[index]? with
    | none => ([], done)
    | some t =>
      let (trivia, done) := triviaUpTo tokens done index
      (trivia ++ [.token kind (textOfPart t.text part)], done)
  | .node kind children =>
    let (trivia, done) := match Match.firstPosOf? children with
      | some first => triviaUpTo tokens done first.index
      | none => ([], done)
    let (children, done) := ofMatches tokens done children
    (trivia ++ [.node kind children], done)

/-- The trees of some matches. -/
def ofMatches (tokens : Array Token) (done : Nat) : List Match → List Tree × Nat
  | [] => ([], done)
  | m :: ms =>
    let (first, done) := ofMatch tokens done m
    let (others, done) := ofMatches tokens done ms
    (first ++ others, done)

end

/-- The tree of a whole token stream, with the trees of some matches below its root. -/
def build (stream : TokenStream) (root : Kind) (ms : List Match) : Tree :=
  let (trees, done) := ofMatches stream.tokens 0 ms
  match stream.tokens.back? with
  | none => .node root trees
  | some eof =>
    let trivia := (triviaUpTo stream.tokens done (stream.tokens.size - 1)).1
    .node root (trees ++ trivia ++ [.token .eof eof.text])

end Tree
end Packrat
