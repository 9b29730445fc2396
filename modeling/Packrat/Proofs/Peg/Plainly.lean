/-
# Left calls, told plainly

Which terms may match without reading, and which rules a rule may apply before it has read
anything, told as functions of the references that may match without reading.  They look at
nothing and cannot go wrong, so they are what is reasoned about; the check of a grammar comes to
what they say (`Grammar.checkLeftCalls_attempts`), unless it looks up a number that no rule has.

Rules are marked in rounds here: a round asks all rules on the marks that there were before it.
-/

import Packrat.Peg.Grammar

namespace Packrat
namespace Peg
namespace Term

mutual

/-- The term may match without reading, given the references that may. -/
def nullable (null : RuleRef → Bool) : Term → Bool
  | .token _ | .split _ | .word _ | .any => false
  | .ended | .opt _ | .star _ | .ahead _ | .notAhead _ => true
  | .seq items => allNullable null items
  | .choice alternatives => anyNullable null alternatives
  | .plus body | .node _ body | .scoped _ _ body | .gate _ _ body => body.nullable null
  | .ref rule => null rule
  | .fold operand _ _ => operand.nullable null

/-- All of some terms may match without reading. -/
def allNullable (null : RuleRef → Bool) : List Term → Bool
  | [] => true
  | t :: ts => t.nullable null && allNullable null ts

/-- One of some terms may match without reading. -/
def anyNullable (null : RuleRef → Bool) : List Term → Bool
  | [] => false
  | t :: ts => t.nullable null || anyNullable null ts

end

mutual

/-- The references that a term may follow before it has read a token, in order. -/
def leftCalls (null : RuleRef → Bool) : Term → List RuleRef
  | .token _ | .split _ | .word _ | .any | .ended => []
  | .seq items => leftCallsOfSeq null items
  | .choice alternatives => leftCallsOfAll null alternatives
  | .opt body | .star body | .plus body | .ahead body | .notAhead body | .node _ body
  | .scoped _ _ body | .gate _ _ body => body.leftCalls null
  | .ref rule => [rule]
  | .fold operand tails _ =>
    operand.leftCalls null
      ++ if operand.nullable null then leftCallsOfTails null tails else []

/-- Left calls of terms in sequence: those of the first, and of the others while all
before them may match without reading. -/
def leftCallsOfSeq (null : RuleRef → Bool) : List Term → List RuleRef
  | [] => []
  | t :: ts => t.leftCalls null ++ if t.nullable null then leftCallsOfSeq null ts else []

/-- Left calls of terms that are all tried at one place. -/
def leftCallsOfAll (null : RuleRef → Bool) : List Term → List RuleRef
  | [] => []
  | t :: ts => t.leftCalls null ++ leftCallsOfAll null ts

/-- Left calls of tails that are all tried at one place. -/
def leftCallsOfTails (null : RuleRef → Bool) : List (Kind × Term) → List RuleRef
  | [] => []
  | (_, t) :: ts => t.leftCalls null ++ leftCallsOfTails null ts

end

end Term

namespace Grammar

/-- A reference is nullable when its rule is marked. -/
def isMarked (g : Grammar) (marks : Array Bool) (rule : RuleRef) : Bool :=
  (g.resolve? rule).any fun id => marks.getD id false

/-- One round of marking: the rules marked before, and those whose body is nullable
with them. -/
def markRound (g : Grammar) (marks : Array Bool) : Array Bool :=
  g.rules.mapIdx fun i rule => marks.getD i false || rule.body.nullable (g.isMarked marks)

/-- Rounds of marking until nothing changes, at most `n`. -/
def markRounds (g : Grammar) : Nat → Array Bool → Array Bool
  | 0, marks => marks
  | n + 1, marks =>
    let next := g.markRound marks
    if next = marks then marks else markRounds g n next

/-- The nullable rules.  Every round but the last marks one rule more, so there are
enough rounds. -/
def nullableRules (g : Grammar) : Array Bool :=
  g.markRounds (g.rules.size + 1) (Array.replicate g.rules.size false)

/-- A reference may match without reading. -/
def isNullable (g : Grammar) (rule : RuleRef) : Bool := g.isMarked g.nullableRules rule

/-- The rules that a rule may apply before it has read a token. -/
def leftCallGraph (g : Grammar) : Array (List Nat) :=
  let marks := g.nullableRules
  g.rules.map fun rule => (rule.body.leftCalls (g.isMarked marks)).filterMap g.resolve?

/-- Follow the left calls from rule `id`, which was reached along `path` (last first).
`done` are the rules known to lead into no cycle; a cycle is returned as an error.  A
path without a cycle is no longer than there are rules, which bounds the depth. -/
def search (graph : Array (List Nat)) :
    Nat → List Nat → Nat → List Nat → Except (List Nat) (List Nat)
  | 0, _, _, done => .ok done
  | depth + 1, path, id, done =>
    if path.contains id then .error (id :: (path.takeWhile (· ≠ id)).reverse ++ [id])
    else if done.contains id then .ok done
    else do
      let done ← (graph.getD id []).foldlM (fun done callee =>
        search graph depth (id :: path) callee done) done
      return id :: done

/-- A cycle of left calls, from a rule back to itself, if there is one. -/
def leftCycle? (g : Grammar) : Option (List Nat) :=
  let graph := g.leftCallGraph
  let ids := List.range g.rules.size
  match ids.foldlM (fun done id => search graph (g.rules.size + 1) [] id done) [] with
  | .ok _ => none
  | .error cycle => some cycle

end Grammar
end Peg
end Packrat
