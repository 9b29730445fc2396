/-
# Evaluation, step by step

The same evaluation with a log of what is done: each term begins at a place, and matches or fails
there (`Moment`).  The log tells a moment by its term and place, by the negative lookaheads around
it, and by the states before and after, in the order in which things happen.

Keeping a log changes nothing (`Machine.outcome_trace`).  Every composed term is written as in
`Outcome.resume`: it begins with one evaluation and goes on behind it, and so do the logs.  What
the table of memos answers is not evaluated, and leaves nothing in the log but its own reference.
-/

import Packrat.Proofs.Peg.Resume

namespace Packrat
namespace Peg

/-- What is done to a term. -/
inductive Deed where
  | begins
  | matches
  | fails
  deriving DecidableEq, Repr

/-- A step of an evaluation: what is done to a term at a place, with how many negative lookaheads
around, the state in which the term began and the state now. -/
structure Moment where
  deed : Deed
  term : Term
  pos : Pos
  around : Nat
  before : State
  after : State

/-- How an evaluation ends, and what it has done until then. -/
structure Trace where
  log : List Moment
  outcome : Outcome

namespace Trace

/-- Nothing is done. -/
def still (o : Outcome) : Trace := ⟨[], o⟩

/-- Go on behind a match, or after a failure. -/
def resume (τ : Trace) (onMatch : Pos → State → Trace) (onFail : State → Trace) : Trace :=
  match τ.outcome with
  | .matched stop s => ⟨τ.log ++ (onMatch stop s).log, (onMatch stop s).outcome⟩
  | .failed s => ⟨τ.log ++ (onFail s).log, (onFail s).outcome⟩
  | .fault f => ⟨τ.log, .fault f⟩

/-- The last moment of a term, unless its evaluation goes wrong. -/
def closing (around : Nat) (t : Term) (pos : Pos) (s : State) : Outcome → List Moment
  | .matched _ s' => [⟨.matches, t, pos, around, s, s'⟩]
  | .failed s' => [⟨.fails, t, pos, around, s, s'⟩]
  | .fault _ => []

/-- The first and the last moment of a term, around what is done inside. -/
def framed (around : Nat) (t : Term) (pos : Pos) (s : State) (τ : Trace) : Trace :=
  ⟨⟨.begins, t, pos, around, s, s⟩ :: (τ.log ++ closing around t pos s τ.outcome), τ.outcome⟩

@[simp] theorem outcome_still (o : Outcome) : (still o).outcome = o := rfl

@[simp] theorem outcome_framed (around : Nat) (t : Term) (pos : Pos) (s : State) (τ : Trace) :
    (τ.framed around t pos s).outcome = τ.outcome := rfl

@[simp] theorem outcome_resume (τ : Trace) (onMatch : Pos → State → Trace)
    (onFail : State → Trace) : (τ.resume onMatch onFail).outcome =
      τ.outcome.resume (fun stop s => (onMatch stop s).outcome) fun s => (onFail s).outcome := by
  unfold resume Outcome.resume
  cases τ.outcome <;> rfl

end Trace

/-- Evaluates terms at places, with a log. -/
abbrev Tracer := Term → Pos → State → Trace

namespace Machine

/-! ## Loops -/

/-- Match terms one after the other. -/
def seqTrace (ev : Tracer) (mark : Nat) : List Term → Pos → State → Trace
  | [], pos, s => .still (.matched pos s)
  | t :: ts, pos, s => (ev t pos s).resume (fun stop s => seqTrace ev mark ts stop s)
      fun s => .still (.failed (s.truncate mark))

/-- Match the first of some terms that matches. -/
def choiceTrace (ev : Tracer) (mark : Nat) (pos : Pos) : List Term → State → Trace
  | [], s => .still (.failed s)
  | t :: ts, s => (ev t pos s).resume (fun stop s => .still (.matched stop s))
      fun s => choiceTrace ev mark pos ts (s.truncate mark)

/-- Match a term again and again. -/
def repeatTrace (ev : Tracer) (t : Term) : Nat → Pos → State → Trace
  | 0, _, _ => .still (.fault .outOfFuel)
  | fuel + 1, pos, s => (ev t pos s).resume
      (fun stop s' => if stop = pos then .still (.matched pos (s'.truncate s.out.size))
        else repeatTrace ev t fuel stop s')
      fun s' => .still (.matched pos (s'.truncate s.out.size))

/-- Match the first of some tails that matches. -/
def tailTrace (ev : Tracer) (mark : Nat) (pos : Pos) : List (Kind × Term) → State → Trace
  | [], s => .still (.failed s)
  | (kind, t) :: tails, s => (ev t pos s).resume
      (fun stop s' => .still (.matched stop (s'.wrap mark kind)))
      fun s' => tailTrace ev mark pos tails (s'.truncate s.out.size)

/-- Match tails in rounds. -/
def foldTrace (ev : Tracer) (tails : List (Kind × Term)) (max : Option Nat) (mark : Nat) :
    Nat → Nat → Pos → State → Trace
  | 0, _, _, _ => .still (.fault .outOfFuel)
  | fuel + 1, folded, pos, s =>
    if max.any (· ≤ folded) then .still (.matched pos s)
    else (tailTrace ev mark pos tails s).resume
      (fun stop s => foldTrace ev tails max mark fuel (folded + 1) stop s)
      fun s => .still (.matched pos s)

/-! ## Rules -/

/-- Evaluate a rule's body. -/
def enterTrace (ev : Tracer) (rule : Rule) (key : MemoKey) (pos : Pos) (s : State) : Trace :=
  (ev rule.body pos (entering pos s rule key)).resume
    (fun stop s' => .still (.matched stop (leavingMatched s rule key stop s')))
    fun s' => .still (.failed (leavingFailed pos s rule key s'))

/-- Answer a rule from the table, or enter it. -/
def consultTrace (reuse : Bool) (ev : Tracer) (rule : Rule) (key : MemoKey) (pos : Pos)
    (s : State) : Trace :=
  match s.memo.get? key with
  | none => enterTrace ev rule key pos s
  | some .inProgress => .still (.fault (.reentered rule.name pos.index))
  | some .failed => if reuse then .still (.failed s) else enterTrace ev rule key pos s
  | some (.matched stop nodes) =>
    if reuse then .still (.matched stop (s.append nodes)) else enterTrace ev rule key pos s

/-- Apply a rule at a place. -/
def applyTrace (m : Machine) (ev : Tracer) (id : Nat) (rule : Rule) (pos : Pos) (s : State) :
    Trace :=
  if s.halted then .still (.failed s)
  else if m.limits.maxSteps.any (· < s.steps + 1) then
    .still (.failed { stepped s with exhausted := true })
  else if m.limits.maxDepth.any (· ≤ s.depth) then
    .still (.failed { stepped s with tooDeep := true })
  else consultTrace m.limits.reuse ev rule ⟨id, pos, s.flags⟩ pos (stepped s)

/-! ## Terms -/

/-- What is done inside a term, with `ev` for the terms in it, which is told how many negative
lookaheads are around them. -/
def stepTrace (m : Machine) (fuel : Nat) (ev : Nat → Tracer) (around : Nat) : Tracer :=
  fun term pos s =>
  match term with
  | .token kind => .still (m.readToken kind pos s)
  | .split kind => .still (m.readSplit kind pos s)
  | .word text => .still (m.readWord text pos s)
  | .any => .still (m.readAny pos s)
  | .ended => .still (m.readEnd pos s)
  | .seq items => seqTrace (ev around) s.out.size items pos s
  | .choice alternatives => choiceTrace (ev around) s.out.size pos alternatives s
  | .opt body => (ev around body pos s).resume (fun stop s' => .still (.matched stop s'))
      fun s' => .still (.matched pos (s'.truncate s.out.size))
  | .star body => repeatTrace (ev around) body fuel pos s
  | .plus body => (ev around body pos s).resume
      (fun stop s' => repeatTrace (ev around) body fuel stop s') fun s' => .still (.failed s')
  | .ahead body => (ev around body pos s).resume
      (fun _ s' => .still (.matched pos (s'.truncate s.out.size)))
      fun s' => .still (.failed (s'.truncate s.out.size))
  | .notAhead body => (ev (around + 1) body pos (muted s)).resume
      (fun _ s' => .still (.failed (unmuted s s'))) fun s' => .still (.matched pos (unmuted s s'))
  | .ref r =>
    match m.grammar.resolve? r with
    | none => .still (.failed s)
    | some id =>
      match m.grammar.rules[id]? with
      | none => .still (.fault (.noRule id m.grammar.rules.size))
      | some rule => m.applyTrace (ev around) id rule pos s
  | .node kind body => (ev around body pos s).resume
      (fun stop s' => .still (.matched stop (s'.wrap s.out.size kind)))
      fun s' => .still (.failed s')
  | .scoped set clear body =>
    (ev around body pos (flagged s ((s.flags.union set).diff clear))).resume
      (fun stop s' => .still (.matched stop (flagged s' s.flags)))
      fun s' => .still (.failed (flagged s' s.flags))
  | .gate flags whenSet body =>
    if s.flags.intersects flags = whenSet then ev around body pos s else .still (.failed s)
  | .fold operand tails max => (ev around operand pos s).resume
      (fun stop s' => foldTrace (ev around) tails max s.out.size (foldRounds fuel max) 0 stop s')
      fun s' => .still (.failed s')

/-- Evaluate a term and keep a log. -/
def trace (m : Machine) : Nat → Nat → Tracer
  | 0 => fun _ _ _ _ => .still (.fault .outOfFuel)
  | fuel + 1 => fun around t pos s =>
    (m.stepTrace fuel (trace m fuel) around t pos s).framed around t pos s

/-! ## Nothing is changed -/

section

variable {m : Machine} {ev : Tracer} {eval : Evaluator}
  (hev : ∀ t pos s, (ev t pos s).outcome = eval t pos s)
include hev

theorem outcome_seqTrace (mark : Nat) (ts : List Term) : ∀ pos s,
    (seqTrace ev mark ts pos s).outcome = seqFrom eval mark ts pos s := by
  induction ts with
  | nil => exact fun _ _ => rfl
  | cons t ts ih =>
    intro pos s
    simp only [seqTrace, seqFrom_cons, Trace.outcome_resume, Trace.outcome_still, hev, ih]

theorem outcome_choiceTrace (mark : Nat) (pos : Pos) (ts : List Term) : ∀ s,
    (choiceTrace ev mark pos ts s).outcome = choiceFrom eval mark pos ts s := by
  induction ts with
  | nil => exact fun _ => rfl
  | cons t ts ih =>
    intro s
    simp only [choiceTrace, choiceFrom_cons, Trace.outcome_resume, Trace.outcome_still, hev, ih]

theorem outcome_repeatTrace (t : Term) (fuel : Nat) : ∀ pos s,
    (repeatTrace ev t fuel pos s).outcome = repeatFrom eval t fuel pos s := by
  induction fuel with
  | zero => exact fun _ _ => rfl
  | succ fuel ih =>
    intro pos s
    simp only [repeatTrace, repeatFrom_succ, Trace.outcome_resume, Trace.outcome_still, hev,
      apply_ite Trace.outcome, ih]

theorem outcome_tailTrace (mark : Nat) (pos : Pos) (tails : List (Kind × Term)) : ∀ s,
    (tailTrace ev mark pos tails s).outcome = tailFrom eval mark pos tails s := by
  induction tails with
  | nil => exact fun _ => rfl
  | cons tail tails ih =>
    obtain ⟨kind, t⟩ := tail
    intro s
    simp only [tailTrace, tailFrom_cons, Trace.outcome_resume, Trace.outcome_still, hev, ih]

theorem outcome_foldTrace (tails : List (Kind × Term)) (max : Option Nat) (mark fuel : Nat) :
    ∀ folded pos s, (foldTrace ev tails max mark fuel folded pos s).outcome =
      foldFrom eval tails max mark fuel folded pos s := by
  induction fuel with
  | zero => exact fun _ _ _ => rfl
  | succ fuel ih =>
    intro folded pos s
    simp only [foldTrace, foldFrom_succ, Trace.outcome_resume, Trace.outcome_still,
      apply_ite Trace.outcome, outcome_tailTrace hev, ih]

theorem outcome_enterTrace (rule : Rule) (key : MemoKey) (pos : Pos) (s : State) :
    (enterTrace ev rule key pos s).outcome = enterRule eval rule key pos s := by
  simp only [enterTrace, enterRule_eq, Trace.outcome_resume, Trace.outcome_still, hev]

theorem outcome_applyTrace (m : Machine) (id : Nat) (rule : Rule) (pos : Pos) (s : State) :
    (m.applyTrace ev id rule pos s).outcome = m.applyRule eval id rule pos s := by
  unfold applyTrace
  split
  · next hhalted => rw [applyRule_of_halted m eval pos s id rule hhalted, Trace.outcome_still]
  · next hlive =>
    rw [applyRule_eq m eval pos s id rule (by simpa using hlive)]
    simp only [apply_ite Trace.outcome, Trace.outcome_still, consult_eq, consultTrace]
    congr 2
    cases (stepped s).memo.get? ⟨id, pos, s.flags⟩ with
    | none => exact outcome_enterTrace hev ..
    | some e =>
      cases e <;> simp [apply_ite Trace.outcome, outcome_enterTrace hev]

end

/-- **Keeping a log changes nothing.** -/
theorem outcome_trace (m : Machine) (fuel : Nat) : ∀ around t pos s,
    (m.trace fuel around t pos s).outcome = m.eval fuel t pos s := by
  induction fuel with
  | zero => exact fun _ _ _ _ => rfl
  | succ fuel ih =>
    intro around t pos s
    rw [trace, Trace.outcome_framed, eval]
    cases t with
    | token _ | split _ | word _ | any | ended => rfl
    | seq items => exact outcome_seqTrace (ih around) _ items pos s
    | choice items => exact outcome_choiceTrace (ih around) _ pos items s
    | opt body => simp [stepTrace, step_opt, ih]
    | star body => exact outcome_repeatTrace (ih around) body fuel pos s
    | plus body => simp [stepTrace, step_plus, ih, outcome_repeatTrace (ih around)]
    | ahead body => simp [stepTrace, step_ahead, ih]
    | notAhead body => simp [stepTrace, step_notAhead, ih]
    | ref r =>
      simp only [stepTrace, step]
      cases m.grammar.resolve? r with
      | none => rfl
      | some id =>
        cases hrule : m.grammar.rules[id]? with
        | none => simp [hrule]
        | some rule => simpa [hrule] using outcome_applyTrace (ih around) m id rule pos s
    | node kind body => simp [stepTrace, step_node, ih]
    | «scoped» set clear body => simp [stepTrace, step_scoped, ih]
    | gate flags whenSet body => simp [stepTrace, step_gate, ih, apply_ite Trace.outcome]
    | fold operand tails max => simp [stepTrace, step_fold, ih, outcome_foldTrace (ih around)]

end Machine
end Peg
end Packrat
