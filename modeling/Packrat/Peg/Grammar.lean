/-
# Grammars

A grammar is a list of rules that refer to each other by number.  Making one from named
rules takes three steps, each of which can fail: no name may be used twice, every
reference must name a rule, and no rule may call itself before it has read a token.

The last check is made on the graph of *left calls*: an edge from a rule to each rule
that its body may apply without having read anything.  It needs to know which rules are
*nullable*, that is, may match without reading anything: the least set of rules that is
closed under the table below.

| term | nullable |
| --- | --- |
| `token`, `split`, `word`, `any` | never |
| `ended`, `opt`, `star`, `ahead`, `notAhead` | always |
| `seq` | when all its items are |
| `choice` | when one of its alternatives is |
| `ref` | when the rule is |
| the others | when the body, or the operand, is |

A body may have references by number from the start.  Nothing links these, and the check
goes wrong where it looks up one that no rule has; where it does not look, such a number
goes unnoticed.
-/

import Packrat.Peg.Rule

namespace Packrat
namespace Peg

/-- Rules that refer to each other by number. -/
structure Grammar where
  rules : Array Rule

namespace Grammar

/-- The number of the rule with a name. -/
def id? (g : Grammar) (name : String) : Option Nat := g.rules.findIdx? (·.name = name)

/-- The number that a reference stands for. -/
def resolve? (g : Grammar) : RuleRef → Option Nat
  | .linked id => some id
  | .named name => g.id? name

/-- The names of the rules, in order. -/
def names (g : Grammar) : List String := g.rules.toList.map (·.name)

end Grammar

namespace Term

mutual

/-- The term with rules by number, or the first name that has none. -/
def link (id? : String → Option Nat) : Term → Except String Term
  | .token kind => .ok (.token kind)
  | .split kind => .ok (.split kind)
  | .word text => .ok (.word text)
  | .any => .ok .any
  | .ended => .ok .ended
  | .seq items => do return .seq (← linkAll id? items)
  | .choice alternatives => do return .choice (← linkAll id? alternatives)
  | .opt body => do return .opt (← body.link id?)
  | .star body => do return .star (← body.link id?)
  | .plus body => do return .plus (← body.link id?)
  | .ahead body => do return .ahead (← body.link id?)
  | .notAhead body => do return .notAhead (← body.link id?)
  | .ref (.linked id) => .ok (.ref (.linked id))
  | .ref (.named name) =>
    match id? name with
    | some id => .ok (.ref (.linked id))
    | none => .error name
  | .node kind body => do return .node kind (← body.link id?)
  | .scoped set clear body => do return .scoped set clear (← body.link id?)
  | .gate flags whenSet body => do return .gate flags whenSet (← body.link id?)
  | .fold operand tails max => do
    let operand ← operand.link id?
    return .fold operand (← linkTails id? tails) max

/-- Each of some terms with rules by number. -/
def linkAll (id? : String → Option Nat) : List Term → Except String (List Term)
  | [] => .ok []
  | t :: ts => do
    let t ← t.link id?
    return t :: (← linkAll id? ts)

/-- Each of some tails with rules by number. -/
def linkTails (id? : String → Option Nat) :
    List (Kind × Term) → Except String (List (Kind × Term))
  | [] => .ok []
  | (kind, t) :: ts => do
    let t ← t.link id?
    return (kind, t) :: (← linkTails id? ts)

end

section

variable {ε : Type} (look : RuleRef → Except ε Bool)

mutual

/-- Whether the term may match without reading.  For a reference that is looked up, and
only where the answer depends on it. -/
def askNullable : Term → Except ε Bool
  | .token _ | .split _ | .word _ | .any => .ok false
  | .ended | .opt _ | .star _ | .ahead _ | .notAhead _ => .ok true
  | .seq items => askAllNullable items
  | .choice alternatives => askAnyNullable alternatives
  | .plus body | .node _ body | .scoped _ _ body | .gate _ _ body => body.askNullable
  | .ref rule => look rule
  | .fold operand _ _ => operand.askNullable

/-- Whether all of some terms may match without reading. -/
def askAllNullable : List Term → Except ε Bool
  | [] => .ok true
  | t :: ts => do if ← t.askNullable then askAllNullable ts else return false

/-- Whether one of some terms may match without reading. -/
def askAnyNullable : List Term → Except ε Bool
  | [] => .ok false
  | t :: ts => do if ← t.askNullable then return true else askAnyNullable ts

end

mutual

/-- The references that a term may follow before it has read a token, in order. -/
def askLeftCalls : Term → Except ε (List RuleRef)
  | .token _ | .split _ | .word _ | .any | .ended => .ok []
  | .seq items => askLeftCallsOfSeq items
  | .choice alternatives => askLeftCallsOfAll alternatives
  | .opt body | .star body | .plus body | .ahead body | .notAhead body | .node _ body
  | .scoped _ _ body | .gate _ _ body => body.askLeftCalls
  | .ref rule => .ok [rule]
  | .fold operand tails _ => do
    let calls ← operand.askLeftCalls
    if ← operand.askNullable look then return calls ++ (← askLeftCallsOfTails tails)
    else return calls

/-- Left calls of terms in sequence: those of the first, and of the others while all
before them may match without reading. -/
def askLeftCallsOfSeq : List Term → Except ε (List RuleRef)
  | [] => .ok []
  | t :: ts => do
    let calls ← t.askLeftCalls
    if ← t.askNullable look then return calls ++ (← askLeftCallsOfSeq ts) else return calls

/-- Left calls of terms that are all tried at one place. -/
def askLeftCallsOfAll : List Term → Except ε (List RuleRef)
  | [] => .ok []
  | t :: ts => do
    let calls ← t.askLeftCalls
    return calls ++ (← askLeftCallsOfAll ts)

/-- Left calls of tails that are all tried at one place. -/
def askLeftCallsOfTails : List (Kind × Term) → Except ε (List RuleRef)
  | [] => .ok []
  | (_, t) :: ts => do
    let calls ← t.askLeftCalls
    return calls ++ (← askLeftCallsOfTails ts)

end

end

end Term

namespace Grammar

/-- The mark of the rule that a reference stands for.  A name that no rule has stands for
none; a number that no rule has is out of bounds. -/
def lookUp (g : Grammar) (marks : Array Bool) (rule : RuleRef) : Except GrammarError Bool :=
  match g.resolve? rule with
  | none => .ok false
  | some id =>
    match marks[id]? with
    | some mark => .ok mark
    | none => .error (.noRule id marks.size)

/-- The marks while a pass is made, and whether it has set one. -/
structure Pass where
  marks : Array Bool
  changed : Bool := false

/-- Mark a rule if it is not yet and its body is nullable by the marks that there are by
now. -/
def markRule (g : Grammar) (id : Nat) (rule : Rule) (p : Pass) : Except GrammarError Pass :=
  if p.marks[id]? = some false then do
    if ← rule.body.askNullable (g.lookUp p.marks) then
      return ⟨p.marks.setIfInBounds id true, true⟩
    else return p
  else .ok p

/-- Mark rules one after the other, the first of which has number `id`. -/
def markFrom (g : Grammar) : Nat → List Rule → Pass → Except GrammarError Pass
  | _, [], p => .ok p
  | id, rule :: rules, p => do g.markFrom (id + 1) rules (← g.markRule id rule p)

/-- Passes over all rules until one sets no mark, at most `n`. -/
def markPasses (g : Grammar) : Nat → Array Bool → Except GrammarError (Array Bool)
  | 0, marks => .ok marks
  | n + 1, marks => do
    let p ← g.markFrom 0 g.rules.toList ⟨marks, false⟩
    if p.changed then g.markPasses n p.marks else return p.marks

/-- The nullable rules.  Every pass but the last marks one rule more, so there are enough
passes. -/
def findNullable (g : Grammar) : Except GrammarError (Array Bool) :=
  g.markPasses (g.rules.size + 1) (Array.replicate g.rules.size false)

/-- The rules that each rule may apply before it has read a token. -/
def findLeftCalls (g : Grammar) (marks : Array Bool) : Except GrammarError (List (List Nat)) :=
  g.rules.toList.mapM fun rule => do
    return (← rule.body.askLeftCalls (g.lookUp marks)).filterMap g.resolve?

/-- The names of the rules on a walk. -/
def namesOn (g : Grammar) (walk : List Nat) : List String :=
  walk.filterMap fun id => g.rules[id]?.map (·.name)

/-- Follow the left calls from rule `id`, which was reached along `path` (last first).
`done` are the rules known to lead into no cycle.  A path without a cycle is no longer than
there are rules, which bounds the depth. -/
def follow (g : Grammar) (graph : Array (List Nat)) :
    Nat → List Nat → Nat → List Nat → Except GrammarError (List Nat)
  | 0, _, _, done => .ok done
  | depth + 1, path, id, done =>
    if g.rules.size ≤ id then .error (.noRule id g.rules.size)
    else if path.contains id then
      .error (.leftRecursion (g.namesOn (id :: (path.takeWhile (· ≠ id)).reverse ++ [id])))
    else if done.contains id then .ok done
    else do
      let done ← (graph.getD id []).foldlM (fun done callee =>
        g.follow graph depth (id :: path) callee done) done
      return id :: done

/-- Look for a cycle of left calls, from each rule in turn. -/
def checkLeftCalls (g : Grammar) : Except GrammarError Unit := do
  let marks ← g.findNullable
  let graph ← g.findLeftCalls marks
  let _ ← (List.range g.rules.size).foldlM (fun done id =>
    g.follow graph.toArray (g.rules.size + 1) [] id done) []

/-- The largest number of rules in a grammar. -/
def maxRules : Nat := 65535

/-- The last rule whose name has been used before. -/
def lastDuplicate? (seen : List String) : List Rule → Option String
  | [] => none
  | rule :: rules =>
    match lastDuplicate? (rule.name :: seen) rules with
    | some name => some name
    | none => if seen.contains rule.name then some rule.name else none

/-- Rules with their references by number. -/
def linkRules (id? : String → Option Nat) (rules : List Rule) :
    Except GrammarError (List Rule) :=
  rules.mapM fun rule =>
    match rule.body.link id? with
    | .ok body => .ok { rule with body := body }
    | .error target => .error (.unknownRule rule.name target)

/-- The grammar of some named rules. -/
def ofRules (rules : List Rule) : Except GrammarError Grammar := do
  if let some name := lastDuplicate? [] rules then throw (.duplicateRule name)
  if rules.length > maxRules then throw .tooManyRules
  let named : Grammar := ⟨rules.toArray⟩
  let g : Grammar := ⟨(← linkRules named.id? rules).toArray⟩
  g.checkLeftCalls
  return g

end Grammar
end Peg
end Packrat
