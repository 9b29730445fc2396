/-
# Comments of a tree

The documentation of a node stands right before it under the same parent: outer doc
comments, with nothing but whitespace between them and the node.
-/

import Packrat.Text.Blank
import Packrat.Text.Lines
import Packrat.Text.Measure
import Packrat.Typed.Name

namespace Packrat

/-- What a comment in a block says: its lines without blanks and without the stars that
begin them; empty lines are left out. -/
def cleanDocLines (text : List Char) : String :=
  let line (cs : List Char) : List Char :=
    match Text.trim cs with
    | '*' :: rest => rest.dropWhile Text.isBlank
    | cs => cs
  let lines := ((Text.splitOnChar '\n' text).map line).filter (!·.isEmpty)
  "\n".intercalate (lines.map String.ofList)

/-- What a doc comment says. -/
def docText (comment : String) : String :=
  let cs := comment.toList
  match Text.afterPrefix? "///".toList cs with
  | some rest => String.ofList (Text.trim rest)
  | none =>
    let body := (Text.afterPrefix? "/**".toList cs).bind fun inner =>
      (Text.afterPrefix? ['/', '*'] inner.reverse).map List.reverse
    cleanDocLines (body.getD [])

/-- What the doc comments say that come before a node, the nearest first. -/
def docsBefore : List Tree → List String
  | .token .whitespace _ :: ts => docsBefore ts
  | .token .outerDocComment text :: ts => docText text :: docsBefore ts
  | _ => []

namespace Located

/-- The documentation of a node. -/
def doc? (n : Located) : Option String :=
  match docsBefore n.before with
  | [] => none
  | docs => some ("\n".intercalate docs.reverse)

/-- The token is an identifier. -/
def isIdentifier (t : Located) : Bool := t.kind == .ident || t.kind == .rawIdent

/-- The comment is documentation. -/
def isDocComment (t : Located) : Bool :=
  t.kind == .innerDocComment || t.kind == .outerDocComment

/-- The comment has an end mark. -/
def isBlockComment (t : Located) : Bool := (Text.afterPrefix? ['/', '*'] t.text.toList).isSome

end Located
end Packrat
