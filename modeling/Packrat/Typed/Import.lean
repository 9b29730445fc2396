/-
# Imported paths

A tree of imports has a path, then a group of trees, a star or nothing.  Flattened, it
gives one path for each leaf, joined from the paths on the way; empty ones are left out.
-/

import Packrat.Typed.Name

namespace Packrat

/-- Two paths in a row; an empty one leaves the other. -/
def joinPaths (outer inner : String) : String :=
  if outer.isEmpty then inner
  else if inner.isEmpty then outer
  else outer ++ "::" ++ inner

namespace Tree

/-- The text of the first path among some trees; empty if there is none. -/
def pathText : List Tree → String
  | [] => ""
  | node .path cs :: _ => (node .path cs).plainText
  | _ :: ts => pathText ts

/-- A star is among some trees. -/
def hasStar (ts : List Tree) : Bool := ts.any fun t => !t.isNode && t.kind == .star

mutual

/-- The paths that a tree of imports brings. -/
def imports : Tree → List String
  | token .. => []
  | node _ cs =>
    match groupImports? cs with
    | some inner => inner.map (joinPaths (pathText cs))
    | none => if hasStar cs then [joinPaths (pathText cs) "*"] else [pathText cs]

/-- The paths that the first group among some trees brings. -/
def groupImports? : List Tree → Option (List String)
  | [] => none
  | t :: ts =>
    match t with
    | node .useTreeList branches => some (branchImports branches)
    | _ => groupImports? ts

/-- The paths that the trees of imports in a group bring. -/
def branchImports : List Tree → List String
  | [] => []
  | t :: ts => (if t.isNode && t.kind == .useTree then imports t else []) ++ branchImports ts

end

end Tree

namespace UseTreeList

/-- The branches. -/
def useTrees (l : UseTreeList) : List UseTree := l.node.views

end UseTreeList

namespace UseTree

/-- The branches in braces. -/
def useTreeList? (t : UseTree) : Option UseTreeList := t.node.view?

/-- The tree imports everything. -/
def isGlob (t : UseTree) : Bool := t.node.has .star

/-- One path for each leaf, in the order of the text. -/
def flatten (t : UseTree) : List String := t.node.tree.imports

end UseTree

namespace Use

/-- The imported tree. -/
def useTree? (u : Use) : Option UseTree := u.node.view?

end Use
end Packrat
