/-
# Evaluation

Evaluating a term at a place either matches, up to a place, or fails; the trees that it
matched have been put behind the output, or the output is what it was.  Every rule is
remembered with its place and flags, and is evaluated only once for these.

An evaluation can also go wrong in ways that are no answer: a rule can be applied again at
the same place while it is being evaluated, which no accepted grammar does; a token or a
rule can be looked up by a number that it does not have; and terms that match again and
again without an end use up the fuel.
-/

import Packrat.Peg.State
import Packrat.Text.Measure

namespace Packrat
namespace Peg

/-- How an evaluation goes wrong. -/
inductive Fault where
  /-- A rule was applied at a token while it was being evaluated there. -/
  | reentered (rule : String) (index : Nat)
  /-- The rest of a token was asked for behind the last of `size` tokens. -/
  | noToken (index size : Nat)
  /-- A rule was asked for by a number that none of `size` rules has. -/
  | noRule (id size : Nat)
  | outOfFuel
  deriving DecidableEq, Repr

/-- The fault in words. -/
def Fault.message : Fault → String
  | reentered rule index =>
    "rule " ++ tick rule ++ s!" re-entered at token {index} without consuming input"
  | noToken index size | noRule index size =>
    s!"index out of bounds: the len is {size} but the index is {index}"
  | outOfFuel => "evaluation does not end"

/-- How the evaluation of a term ends. -/
inductive Outcome where
  | matched (stop : Pos) (state : State)
  | failed (state : State)
  | fault (fault : Fault)

/-- Evaluates terms at places. -/
abbrev Evaluator := Term → Pos → State → Outcome

/-- A grammar, the tokens to read, and how far to go. -/
structure Machine where
  grammar : Grammar
  tokens : Array Symbol
  limits : Limits := {}

namespace Machine

/-! ## Tokens -/

/-- The text at a place: a token's, or what is left of one that has been split. -/
def textAt (m : Machine) (pos : Pos) : String :=
  match m.tokens[pos.index]? with
  | none => ""
  | some t =>
    if pos.isSplit then
      ((Text.dropBytes? pos.offset.toNat t.text.toList).map String.ofList).getD ""
    else t.text

/-- The kind at a place.  What is left of a split token is a punctuator or nothing that
has a kind; behind the last token the text has ended. -/
def kindAt (m : Machine) (pos : Pos) : Kind :=
  match m.tokens[pos.index]? with
  | none => .eof
  | some t => if pos.isSplit then (Kind.punctuator? (m.textAt pos)).getD .error else t.kind

/-- Match what is at a place as a leaf of some kind.  What is left of a split token ends
where the token does. -/
def leaf (m : Machine) (pos : Pos) (kind : Kind) (s : State) : Outcome :=
  if pos.isSplit then
    match m.tokens[pos.index]? with
    | none => .fault (.noToken pos.index m.tokens.size)
    | some t =>
      let part := (pos.offset, UInt8.ofNat t.text.utf8ByteSize)
      .matched ⟨pos.index + 1, 0⟩ (s.push (.token pos.index kind (some part)))
  else .matched ⟨pos.index + 1, 0⟩ (s.push (.token pos.index kind none))

/-- Match a token of a kind. -/
def readToken (m : Machine) (kind : Kind) (pos : Pos) (s : State) : Outcome :=
  if m.kindAt pos = kind then m.leaf pos kind s
  else .failed (s.expect pos (.token kind))

/-- Match a token of a kind, or the beginning of a longer token that is spelled like
one.  The place after it is inside that token. -/
def readSplit (m : Machine) (kind : Kind) (pos : Pos) (s : State) : Outcome :=
  if m.kindAt pos = kind then m.leaf pos kind s
  else
    let rest := m.textAt pos
    match kind.spelling? with
    | some text =>
      if text.utf8ByteSize < rest.utf8ByteSize ∧ text.toList.isPrefixOf rest.toList then
        let stop := pos.offset + UInt8.ofNat text.utf8ByteSize
        .matched ⟨pos.index, stop⟩ (s.push (.token pos.index kind (some (pos.offset, stop))))
      else .failed (s.expect pos (.token kind))
    | none => .failed (s.expect pos (.token kind))

/-- Match an identifier with a given text. -/
def readWord (m : Machine) (text : String) (pos : Pos) (s : State) : Outcome :=
  if m.kindAt pos = .ident ∧ m.textAt pos = text then m.leaf pos .ident s
  else .failed (s.expect pos (.word text))

/-- Match any token but a delimiter and the end of the text. -/
def readAny (m : Machine) (pos : Pos) (s : State) : Outcome :=
  let kind := m.kindAt pos
  if kind.isOpening || kind.isClosing || kind = .eof then .failed s else m.leaf pos kind s

/-- Match nothing at the end of the text. -/
def readEnd (m : Machine) (pos : Pos) (s : State) : Outcome :=
  if m.kindAt pos = .eof then .matched pos s else .failed (s.expect pos (.token .eof))

/-! ## Composed terms -/

/-- Match terms one after the other; if one fails, nothing is kept. -/
def seqFrom (eval : Evaluator) (mark : Nat) : List Term → Pos → State → Outcome
  | [], pos, s => .matched pos s
  | t :: ts, pos, s =>
    match eval t pos s with
    | .matched stop s => seqFrom eval mark ts stop s
    | .failed s => .failed (s.truncate mark)
    | .fault f => .fault f

/-- Match the first of some terms that matches. -/
def choiceFrom (eval : Evaluator) (mark : Nat) (pos : Pos) : List Term → State → Outcome
  | [], s => .failed s
  | t :: ts, s =>
    match eval t pos s with
    | .matched stop s => .matched stop s
    | .failed s => choiceFrom eval mark pos ts (s.truncate mark)
    | .fault f => .fault f

/-- Match a term again and again, until it fails or matches nothing. -/
def repeatFrom (eval : Evaluator) (t : Term) : Nat → Pos → State → Outcome
  | 0, _, _ => .fault .outOfFuel
  | fuel + 1, pos, s =>
    let mark := s.out.size
    match eval t pos s with
    | .matched stop s =>
      if stop = pos then .matched pos (s.truncate mark) else repeatFrom eval t fuel stop s
    | .failed s => .matched pos (s.truncate mark)
    | .fault f => .fault f

/-- Match the first of some tails that matches, and wrap all from `mark` on in its node. -/
def tailFrom (eval : Evaluator) (mark : Nat) (pos : Pos) :
    List (Kind × Term) → State → Outcome
  | [], s => .failed s
  | (kind, t) :: tails, s =>
    let tailMark := s.out.size
    match eval t pos s with
    | .matched stop s => .matched stop (s.wrap mark kind)
    | .failed s => tailFrom eval mark pos tails (s.truncate tailMark)
    | .fault f => .fault f

/-- Match tails while one matches and fewer than `max` have; `folded` have so far. -/
def foldFrom (eval : Evaluator) (tails : List (Kind × Term)) (max : Option Nat) (mark : Nat) :
    Nat → Nat → Pos → State → Outcome
  | 0, _, _, _ => .fault .outOfFuel
  | fuel + 1, folded, pos, s =>
    if max.any (· ≤ folded) then .matched pos s
    else
      match tailFrom eval mark pos tails s with
      | .matched stop s => foldFrom eval tails max mark fuel (folded + 1) stop s
      | .failed s => .matched pos s
      | .fault f => .fault f

/-! ## Rules -/

/-- Evaluate a rule's body, and remember under `key` what comes of it. -/
def enterRule (eval : Evaluator) (rule : Rule) (key : MemoKey) (pos : Pos) (s : State) :
    Outcome :=
  let mark := s.out.size
  let before := s.failure
  let outer := s.contexts
  let inner := match rule.context with
    | some context => (context, pos) :: outer
    | none => outer
  let entered := { s with
    memo := s.memo.insert key .inProgress
    contexts := inner
    depth := s.depth + 1 }
  match eval rule.body pos entered with
  | .matched stop s =>
    let s := { s with contexts := outer, depth := s.depth - 1 }
    let s := match rule.kind with
      | some kind => s.wrap mark kind
      | none => s
    let nodes := s.outputFrom mark
    .matched stop { s with memo := s.memo.insert key (.matched stop nodes) }
  | .failed s =>
    let s := { s with contexts := outer, depth := s.depth - 1 }
    let s := s.truncate mark
    let s := match rule.label with
      | some label => s.expectLabel pos before label
      | none => s
    .failed { s with memo := s.memo.insert key .failed }
  | .fault f => .fault f

/-- Apply a rule at a place: count the step, mind the limits, and use what is known. -/
def applyRule (m : Machine) (eval : Evaluator) (id : Nat) (rule : Rule) (pos : Pos)
    (s : State) : Outcome :=
  if s.halted then .failed s
  else
    let s := { s with steps := s.steps + 1 }
    if m.limits.maxSteps.any (· < s.steps) then .failed { s with exhausted := true }
    else if m.limits.maxDepth.any (· ≤ s.depth) then .failed { s with tooDeep := true }
    else
      let key : MemoKey := ⟨id, pos, s.flags⟩
      match s.memo.get? key with
      | none => enterRule eval rule key pos s
      | some .inProgress => .fault (.reentered rule.name pos.index)
      | some .failed => if m.limits.reuse then .failed s else enterRule eval rule key pos s
      | some (.matched stop nodes) =>
        if m.limits.reuse then .matched stop (s.append nodes) else enterRule eval rule key pos s

/-! ## Terms -/

/-- Evaluate a term, with `eval` for the terms inside it and `fuel` for its loops; a fold
with a limit needs one round more than its limit and no other fuel. -/
def step (m : Machine) (fuel : Nat) (eval : Evaluator) : Evaluator := fun term pos s =>
  match term with
  | .token kind => m.readToken kind pos s
  | .split kind => m.readSplit kind pos s
  | .word text => m.readWord text pos s
  | .any => m.readAny pos s
  | .ended => m.readEnd pos s
  | .seq items => seqFrom eval s.out.size items pos s
  | .choice alternatives => choiceFrom eval s.out.size pos alternatives s
  | .opt body =>
    let mark := s.out.size
    match eval body pos s with
    | .failed s => .matched pos (s.truncate mark)
    | outcome => outcome
  | .star body => repeatFrom eval body fuel pos s
  | .plus body =>
    match eval body pos s with
    | .matched stop s => repeatFrom eval body fuel stop s
    | outcome => outcome
  | .ahead body =>
    let mark := s.out.size
    match eval body pos s with
    | .matched _ s => .matched pos (s.truncate mark)
    | .failed s => .failed (s.truncate mark)
    | .fault f => .fault f
  | .notAhead body =>
    let mark := s.out.size
    match eval body pos { s with suppress := s.suppress + 1 } with
    | .matched _ s => .failed ({ s with suppress := s.suppress - 1 }.truncate mark)
    | .failed s => .matched pos ({ s with suppress := s.suppress - 1 }.truncate mark)
    | .fault f => .fault f
  | .ref r =>
    match m.grammar.resolve? r with
    | none => .failed s
    | some id =>
      match m.grammar.rules[id]? with
      | none => .fault (.noRule id m.grammar.rules.size)
      | some rule => m.applyRule eval id rule pos s
  | .node kind body =>
    let mark := s.out.size
    match eval body pos s with
    | .matched stop s => .matched stop (s.wrap mark kind)
    | outcome => outcome
  | .scoped set clear body =>
    let saved := s.flags
    match eval body pos { s with flags := (saved.union set).diff clear } with
    | .matched stop s => .matched stop { s with flags := saved }
    | .failed s => .failed { s with flags := saved }
    | .fault f => .fault f
  | .gate flags whenSet body =>
    if s.flags.intersects flags = whenSet then eval body pos s else .failed s
  | .fold operand tails max =>
    let mark := s.out.size
    let rounds := match max with
      | some n => n + 1
      | none => fuel
    match eval operand pos s with
    | .matched stop s => foldFrom eval tails max mark rounds 0 stop s
    | outcome => outcome

/-- Evaluate a term with terms nested up to `fuel` deep. -/
def eval (m : Machine) : Nat → Evaluator
  | 0 => fun _ _ _ => .fault .outOfFuel
  | fuel + 1 => m.step fuel (eval m fuel)

/-! ## Runs -/

/-- Why a run has no match. -/
inductive Stop where
  | failure (failure : Failure)
  | budget (steps : Nat)
  | depth (limit : Nat)
  deriving DecidableEq, Repr

/-- How a run ends: with trees and the place after them, or without a match; and the
state it leaves. -/
structure Run where
  result : Except Stop (List Match × Pos)
  state : State

/-- Fuel for a run: terms inside rules, which are applied at places, none of them twice on
the way down, or as often as steps are allowed. -/
def fuelFor (m : Machine) (root : Term) : Nat :=
  let places := 256 * (m.tokens.size + 2)
  let largest := m.grammar.rules.foldl (fun n rule => max n rule.body.size) root.size
  (places * (m.grammar.rules.size + 2) + m.limits.maxSteps.getD 0) * (largest + 2)

/-- Evaluate a term from the first token on, in a state that earlier runs may have left.
A limit that has been passed outweighs any match; a failure is taken out of the state. -/
def runWith (m : Machine) (fuel : Nat) (root : Term) (s : State) : Except Fault Run :=
  match m.eval fuel root {} { s with out := #[] } with
  | .fault f => .error f
  | .matched stop s => .ok (ended s (.ok (s.out.toList, stop)))
  | .failed s =>
    let left := { s with failure := if s.halted then s.failure else {} }
    .ok (ended left (.error (.failure s.failure)))
where
  /-- The end of a run, unless a limit has been passed. -/
  ended (s : State) (result : Except Stop (List Match × Pos)) : Run :=
    if s.exhausted then ⟨.error (.budget s.steps), s⟩
    else if s.tooDeep then ⟨.error (.depth (m.limits.maxDepth.getD s.depth)), s⟩
    else ⟨result, s⟩

/-- Evaluate a term from the first token on, with the fuel that a run may need. -/
def run (m : Machine) (root : Term) (s : State) : Except Fault Run :=
  m.runWith (m.fuelFor root) root s

end Machine
end Peg
end Packrat
