/-
# How evaluation goes on

An evaluation that is made of others begins with one of them and goes on behind its match, or
after its failure (`Outcome.resume`).  Each composed term and each loop is written in this form
once, so that what holds of an evaluation may be told by one lemma about going on:

| term | begins with | goes on |
| --- | --- | --- |
| `seq`, `choice` | the first item | with the others behind its match, or after its failure |
| `star`, `plus`, `fold` | a round, or the operand | with the next round |
| `opt`, `ahead`, `notAhead`, `node`, `scoped` | the body | by cutting back, wrapping or restoring |
| a rule | its body | by noting in the table what came of it |
-/

import Packrat.Peg.Evaluation

namespace Packrat
namespace Peg
namespace Outcome

/-- Go on behind a match, or after a failure.  What has gone wrong stays so. -/
def resume (o : Outcome) (onMatch : Pos → State → Outcome) (onFail : State → Outcome) : Outcome :=
  match o with
  | matched stop s => onMatch stop s
  | failed s => onFail s
  | fault f => .fault f

/-- The state that an evaluation leaves satisfies `P`, unless it has gone wrong. -/
def Leaves (P : State → Prop) : Outcome → Prop
  | matched _ s | failed s => P s
  | fault _ => True

variable {o : Outcome} {P Q : State → Prop} {onMatch : Pos → State → Outcome}
  {onFail : State → Outcome}

theorem Leaves.imp (h : o.Leaves P) (himp : ∀ s, P s → Q s) : o.Leaves Q := by
  cases o with
  | matched stop s => exact himp s h
  | failed s => exact himp s h
  | fault f => trivial

theorem Leaves.resume (h : o.Leaves P) (hmatch : ∀ stop s, P s → (onMatch stop s).Leaves Q)
    (hfail : ∀ s, P s → (onFail s).Leaves Q) : (o.resume onMatch onFail).Leaves Q := by
  cases o with
  | matched stop s => exact hmatch stop s h
  | failed s => exact hfail s h
  | fault f => trivial

end Outcome

namespace Machine

variable (m : Machine) (eval : Evaluator) (fuel mark : Nat) (body t : Term) (ts : List Term)
  (kind : Kind) (tails : List (Kind × Term)) (pos : Pos) (s : State)

/-! ## Loops -/

theorem seqFrom_cons : seqFrom eval mark (t :: ts) pos s = (eval t pos s).resume
    (fun stop s => seqFrom eval mark ts stop s) fun s => .failed (s.truncate mark) := by
  rw [seqFrom]
  cases eval t pos s <;> rfl

theorem choiceFrom_cons : choiceFrom eval mark pos (t :: ts) s = (eval t pos s).resume
    (fun stop s => .matched stop s) fun s => choiceFrom eval mark pos ts (s.truncate mark) := by
  rw [choiceFrom]
  cases eval t pos s <;> rfl

theorem repeatFrom_succ : repeatFrom eval t (fuel + 1) pos s = (eval t pos s).resume
    (fun stop s' => if stop = pos then .matched pos (s'.truncate s.out.size)
      else repeatFrom eval t fuel stop s')
    fun s' => .matched pos (s'.truncate s.out.size) := by
  rw [repeatFrom]
  cases eval t pos s <;> rfl

theorem tailFrom_cons : tailFrom eval mark pos ((kind, t) :: tails) s = (eval t pos s).resume
    (fun stop s' => .matched stop (s'.wrap mark kind))
    fun s' => tailFrom eval mark pos tails (s'.truncate s.out.size) := by
  rw [tailFrom]
  cases eval t pos s <;> rfl

theorem foldFrom_succ (max : Option Nat) (folded : Nat) :
    foldFrom eval tails max mark (fuel + 1) folded pos s =
      if max.any (· ≤ folded) then .matched pos s
      else (tailFrom eval mark pos tails s).resume
        (fun stop s => foldFrom eval tails max mark fuel (folded + 1) stop s)
        fun s => .matched pos s := by
  rw [foldFrom]
  split
  · rfl
  · cases tailFrom eval mark pos tails s <;> rfl

/-! ## Rules -/

/-- The contexts inside a rule: its own comes first, if it has one. -/
def innerContexts (rule : Rule) (pos : Pos) (outer : List (Context × Pos)) :
    List (Context × Pos) :=
  match rule.context with
  | some context => (context, pos) :: outer
  | none => outer

/-- The state in which the body of a rule is evaluated. -/
def entering (rule : Rule) (key : MemoKey) : State :=
  { s with
    memo := s.memo.insert key .inProgress
    contexts := innerContexts rule pos s.contexts
    depth := s.depth + 1 }

/-- The state after the body of a rule, which was applied in state `s`. -/
def leaving (s' : State) : State := { s' with contexts := s.contexts, depth := s'.depth - 1 }

/-- The state after a rule that matched. -/
def leavingMatched (rule : Rule) (key : MemoKey) (stop : Pos) (s' : State) : State :=
  let closed := match rule.kind with
    | some kind => (leaving s s').wrap s.out.size kind
    | none => leaving s s'
  { closed with memo := closed.memo.insert key (.matched stop (closed.outputFrom s.out.size)) }

/-- The state after a rule that failed. -/
def leavingFailed (rule : Rule) (key : MemoKey) (s' : State) : State :=
  let cut := (leaving s s').truncate s.out.size
  let told := match rule.label with
    | some label => cut.expectLabel pos s.failure label
    | none => cut
  { told with memo := told.memo.insert key .failed }

theorem enterRule_eq (rule : Rule) (key : MemoKey) : enterRule eval rule key pos s =
    (eval rule.body pos (entering pos s rule key)).resume
      (fun stop s' => .matched stop (leavingMatched s rule key stop s'))
      fun s' => .failed (leavingFailed pos s rule key s') := by
  simp only [enterRule]
  change (match eval rule.body pos (entering pos s rule key) with
    | .matched _ _ => _
    | .failed _ => _
    | .fault _ => _) = _
  cases eval rule.body pos (entering pos s rule key) <;> rfl

/-- Answer a rule from the table, or enter it. -/
def consult (reuse : Bool) (eval : Evaluator) (rule : Rule) (key : MemoKey) (pos : Pos)
    (s : State) : Outcome :=
  match s.memo.get? key, reuse with
  | some .inProgress, _ => .fault (.reentered rule.name pos.index)
  | some .failed, true => .failed s
  | some (.matched stop nodes), true => .matched stop (s.append nodes)
  | _, _ => enterRule eval rule key pos s

/-- The state with one step more. -/
def stepped : State := { s with steps := s.steps + 1 }

theorem applyRule_of_halted (id : Nat) (rule : Rule) (hhalted : s.halted = true) :
    m.applyRule eval id rule pos s = .failed s := by
  simp [applyRule, hhalted]

/-- What is in the table settles the rest. -/
theorem consult_eq (reuse : Bool) (rule : Rule) (key : MemoKey) :
    consult reuse eval rule key pos s =
      match s.memo.get? key with
      | none => enterRule eval rule key pos s
      | some .inProgress => .fault (.reentered rule.name pos.index)
      | some .failed => if reuse then .failed s else enterRule eval rule key pos s
      | some (.matched stop nodes) =>
        if reuse then .matched stop (s.append nodes) else enterRule eval rule key pos s := by
  unfold consult
  cases s.memo.get? key with
  | none => rfl
  | some e => cases e <;> cases reuse <;> rfl

theorem applyRule_eq (id : Nat) (rule : Rule) (hlive : s.halted = false) :
    m.applyRule eval id rule pos s =
      if m.limits.maxSteps.any (· < s.steps + 1) then .failed { stepped s with exhausted := true }
      else if m.limits.maxDepth.any (· ≤ s.depth) then .failed { stepped s with tooDeep := true }
      else consult m.limits.reuse eval rule ⟨id, pos, s.flags⟩ pos (stepped s) := by
  simp only [applyRule, hlive, Bool.false_eq_true, if_false]
  rw [show s.flags = (stepped s).flags from rfl, consult_eq]
  rfl

/-! ## Terms -/

theorem step_opt : m.step fuel eval (.opt body) pos s = (eval body pos s).resume
    (fun stop s' => .matched stop s') fun s' => .matched pos (s'.truncate s.out.size) := by
  simp only [step]
  cases eval body pos s <;> rfl

theorem step_plus : m.step fuel eval (.plus body) pos s = (eval body pos s).resume
    (fun stop s' => repeatFrom eval body fuel stop s') fun s' => .failed s' := by
  simp only [step]
  cases eval body pos s <;> rfl

theorem step_ahead : m.step fuel eval (.ahead body) pos s = (eval body pos s).resume
    (fun _ s' => .matched pos (s'.truncate s.out.size))
    fun s' => .failed (s'.truncate s.out.size) := by
  simp only [step]
  cases eval body pos s <;> rfl

/-- The state inside a negative lookahead. -/
def muted : State := { s with suppress := s.suppress + 1 }

/-- The state after a negative lookahead, which began in state `s`. -/
def unmuted (s' : State) : State := { s' with suppress := s'.suppress - 1 }.truncate s.out.size

theorem step_notAhead : m.step fuel eval (.notAhead body) pos s = (eval body pos (muted s)).resume
    (fun _ s' => .failed (unmuted s s')) fun s' => .matched pos (unmuted s s') := by
  simp only [step, muted]
  cases eval body pos { s with suppress := s.suppress + 1 } <;> rfl

theorem step_node : m.step fuel eval (.node kind body) pos s = (eval body pos s).resume
    (fun stop s' => .matched stop (s'.wrap s.out.size kind)) fun s' => .failed s' := by
  simp only [step]
  cases eval body pos s <;> rfl

/-- The state with other flags. -/
def flagged (flags : Flags) : State := { s with flags := flags }

theorem step_scoped (set clear : Flags) : m.step fuel eval (.scoped set clear body) pos s =
    (eval body pos (flagged s ((s.flags.union set).diff clear))).resume
      (fun stop s' => .matched stop (flagged s' s.flags))
      fun s' => .failed (flagged s' s.flags) := by
  simp only [step, flagged]
  cases eval body pos { s with flags := (s.flags.union set).diff clear } <;> rfl

theorem step_gate (flags : Flags) (whenSet : Bool) :
    m.step fuel eval (.gate flags whenSet body) pos s =
      if s.flags.intersects flags = whenSet then eval body pos s else .failed s := by
  simp only [step]

/-- Rounds of a fold: its limit and one more, or as many as there is fuel for. -/
def foldRounds (max : Option Nat) : Nat :=
  match max with
  | some n => n + 1
  | none => fuel

theorem step_fold (max : Option Nat) : m.step fuel eval (.fold body tails max) pos s =
    (eval body pos s).resume
      (fun stop s' => foldFrom eval tails max s.out.size (foldRounds fuel max) 0 stop s')
      fun s' => .failed s' := by
  simp only [step]
  cases eval body pos s <;> rfl

theorem step_ref {r : RuleRef} {id : Nat} {rule : Rule} (hid : m.grammar.resolve? r = some id)
    (hrule : m.grammar.rules[id]? = some rule) :
    m.step fuel eval (.ref r) pos s = m.applyRule eval id rule pos s := by
  simp only [step, hid, hrule]

end Machine
end Peg
end Packrat
