/-
# Evaluation states

What an evaluation has produced and noted so far.  Matched trees pile up in one output;
a failing term cuts it back to where the term began.  Apart from that the state records
the furthest failure: the last place where a token was asked for in vain, and all that
was asked for there.  Nothing is recorded inside a negative lookahead.
-/

import Packrat.Diagnostic.Expected
import Packrat.Peg.Grammar
import Packrat.Peg.Memo

namespace Packrat
namespace Peg

/-- The furthest place where tokens were asked for in vain, what was asked for there in
the order of asking, and the construct around it. -/
structure Failure where
  pos : Pos := {}
  expected : List Expected := []
  context : Context := .topLevel
  deriving DecidableEq, Repr, Inhabited

/-- How far an evaluation may go, and whether it may reuse what the memo knows. -/
structure Limits where
  maxSteps : Option Nat := none
  maxDepth : Option Nat := none
  reuse : Bool := true
  deriving DecidableEq, Repr

/-- The state of an evaluation. -/
structure State where
  /-- Trees matched so far. -/
  out : Array Match := #[]
  flags : Flags := {}
  failure : Failure := {}
  /-- Contexts of the rules being evaluated, innermost first, with the places where the
  rules began. -/
  contexts : List (Context × Pos) := []
  /-- Number of negative lookaheads around. -/
  suppress : Nat := 0
  /-- Rules applied so far. -/
  steps : Nat := 0
  /-- The step limit has been passed. -/
  exhausted : Bool := false
  /-- Rules being evaluated. -/
  depth : Nat := 0
  /-- The depth limit has been reached. -/
  tooDeep : Bool := false
  memo : Memo := {}

namespace State

/-- A limit has put an end to the evaluation: every further rule fails. -/
def halted (s : State) : Bool := s.exhausted || s.tooDeep

/-- Cut the output back to its first `mark` trees. -/
def truncate (s : State) (mark : Nat) : State := { s with out := s.out.shrink mark }

/-- Put a tree behind the output. -/
def push (s : State) (m : Match) : State := { s with out := s.out.push m }

/-- Put trees behind the output. -/
def append (s : State) (ms : List Match) : State := { s with out := s.out.appendList ms }

/-- Trees of the output from `mark` on. -/
def outputFrom (s : State) (mark : Nat) : List Match := (s.out.extract mark s.out.size).toList

/-- Replace the trees from `mark` on by one node over them. -/
def wrap (s : State) (mark : Nat) (kind : Kind) : State :=
  let children := s.outputFrom mark
  (s.truncate mark).push (.node kind children)

/-- The innermost context whose rule began before a place. -/
def contextAt (s : State) (pos : Pos) : Context :=
  ((s.contexts.find? fun c => c.2 < pos).map (·.1)).getD .topLevel

/-- Note that something was asked for in vain at a place.  A later place displaces what
was noted before; an earlier one is of no interest. -/
def expect (s : State) (pos : Pos) (what : Expected) : State :=
  if 0 < s.suppress then s
  else if s.failure.pos < pos then { s with failure := ⟨pos, [what], s.contextAt pos⟩ }
  else if s.failure.pos = pos then
    let context := if s.failure.expected.isEmpty then s.contextAt pos else s.failure.context
    let expected := if s.failure.expected.contains what then s.failure.expected
      else s.failure.expected ++ [what]
    { s with failure := ⟨pos, expected, context⟩ }
  else s

/-- Note that a labelled rule failed at a place without having read anything: its label
takes the place of what its body asked for there since the rule began, when the furthest
failure was `before`. -/
def expectLabel (s : State) (pos : Pos) (before : Failure) (label : String) : State :=
  if s.suppress = 0 ∧ s.failure.pos = pos then
    let kept := if before.pos = pos then s.failure.expected.take before.expected.length else []
    { s with failure := { s.failure with expected := kept } }.expect pos (.label label)
  else s

end State
end Peg
end Packrat
