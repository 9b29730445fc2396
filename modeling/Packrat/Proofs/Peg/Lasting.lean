/-
# What lasts

A property of states that survives what terms do to a state besides applying rules lasts through
every evaluation, if rules keep it (`Machine.eval_preserves`).  What it must survive is listed once
(`State.IsLasting`): that trees are matched and cut off, that something is asked for in vain, that
flags change, and that a negative lookahead begins and ends.

Several properties can be carried along at once, so that what a rule keeps may rest on what its body
keeps of another.
-/

import Packrat.Proofs.Peg.Resume
import Packrat.Proofs.Peg.Terminal

namespace Packrat
namespace Peg

/-- A property of states that lasts whatever terms do to a state besides applying rules. -/
structure State.IsLasting (K : State → Prop) : Prop where
  output {s} : K s → ∀ out, K { s with out := out }
  expect {s} : K s → ∀ pos what, K (s.expect pos what)
  flags {s} : K s → ∀ flags, K { s with flags := flags }
  suppress {s} : K s → ∀ n, K { s with suppress := n }

namespace Machine

/-- An evaluator that leaves states as it finds them, as far as `K` goes. -/
def Preserves (K : State → Prop) (eval : Evaluator) : Prop :=
  ∀ t pos s, K s → (eval t pos s).Leaves K

variable {m : Machine} {K : State → Prop} {eval : Evaluator}

/-! ## Loops -/

section

variable (hK : State.IsLasting K) (heval : Preserves K eval)
include hK heval

theorem seqFrom_preserves (mark : Nat) (ts : List Term) : ∀ pos s, K s →
    (seqFrom eval mark ts pos s).Leaves K := by
  induction ts with
  | nil => exact fun _ _ hs => hs
  | cons t ts ih =>
    intro pos s hs
    rw [seqFrom_cons]
    exact (heval t pos s hs).resume ih fun s' hs' => hK.output hs' _

theorem choiceFrom_preserves (mark : Nat) (pos : Pos) (ts : List Term) : ∀ s, K s →
    (choiceFrom eval mark pos ts s).Leaves K := by
  induction ts with
  | nil => exact fun _ hs => hs
  | cons t ts ih =>
    intro s hs
    rw [choiceFrom_cons]
    exact (heval t pos s hs).resume (fun _ _ hs' => hs') fun s' hs' => ih _ (hK.output hs' _)

theorem repeatFrom_preserves (t : Term) (fuel : Nat) : ∀ pos s, K s →
    (repeatFrom eval t fuel pos s).Leaves K := by
  induction fuel with
  | zero => exact fun _ _ _ => trivial
  | succ fuel ih =>
    intro pos s hs
    rw [repeatFrom_succ]
    refine (heval t pos s hs).resume (fun stop s' hs' => ?_) fun s' hs' => hK.output hs' _
    split
    · exact hK.output hs' _
    · exact ih stop s' hs'

theorem tailFrom_preserves (mark : Nat) (pos : Pos) (tails : List (Kind × Term)) : ∀ s, K s →
    (tailFrom eval mark pos tails s).Leaves K := by
  induction tails with
  | nil => exact fun _ hs => hs
  | cons tail tails ih =>
    intro s hs
    rw [tailFrom_cons]
    exact (heval tail.2 pos s hs).resume (fun _ _ hs' => hK.output hs' _)
      fun s' hs' => ih _ (hK.output hs' _)

theorem foldFrom_preserves (tails : List (Kind × Term)) (max : Option Nat) (mark fuel : Nat) :
    ∀ folded pos s, K s → (foldFrom eval tails max mark fuel folded pos s).Leaves K := by
  induction fuel with
  | zero => exact fun _ _ _ _ => trivial
  | succ fuel ih =>
    intro folded pos s hs
    rw [foldFrom_succ]
    split
    · exact hs
    · exact (tailFrom_preserves hK heval mark pos tails s hs).resume (ih (folded + 1))
        fun _ hs' => hs'

end

/-! ## Terms -/

theorem terminal_preserves (hK : State.IsLasting K) (fuel : Nat) {t : Term}
    (ht : t.isTerminal = true) (pos : Pos) {s : State} (hs : K s) :
    (m.step fuel eval t pos s).Leaves K := by
  have hreads := m.step_readsAs pos s fuel eval ht
  cases ho : m.step fuel eval t pos s with
  | matched stop s' =>
    rw [ho] at hreads
    obtain ⟨ns, -, rfl⟩ := hreads
    exact hK.output hs _
  | failed s' =>
    rw [step_terminal_failed ht ho]
    change K _
    cases t.asks? with
    | none => exact hs
    | some what => exact hK.expect hs pos what
  | fault f => trivial

/-- One step of evaluation keeps a lasting property when the evaluation of the terms inside and of
rules does. -/
theorem step_preserves (hK : State.IsLasting K) (heval : Preserves K eval)
    (hrule : ∀ (id : Nat) (rule : Rule) pos s, m.grammar.rules[id]? = some rule → K s →
      (m.applyRule eval id rule pos s).Leaves K) (fuel : Nat) :
    Preserves K (m.step fuel eval) := by
  intro t pos s hs
  cases t with
  | token _ | split _ | word _ | any | ended => exact terminal_preserves hK fuel rfl pos hs
  | seq items => exact seqFrom_preserves hK heval _ items pos s hs
  | choice items => exact choiceFrom_preserves hK heval _ pos items s hs
  | opt body =>
    rw [step_opt]
    exact (heval body pos s hs).resume (fun _ _ hs' => hs') fun _ hs' => hK.output hs' _
  | star body => exact repeatFrom_preserves hK heval body fuel pos s hs
  | plus body =>
    rw [step_plus]
    exact (heval body pos s hs).resume (repeatFrom_preserves hK heval body fuel) fun _ hs' => hs'
  | ahead body =>
    rw [step_ahead]
    exact (heval body pos s hs).resume (fun _ _ hs' => hK.output hs' _)
      fun _ hs' => hK.output hs' _
  | notAhead body =>
    rw [step_notAhead]
    exact (heval body pos (muted s) (hK.suppress hs _)).resume
      (fun _ _ hs' => hK.output (hK.suppress hs' _) _) fun _ hs' => hK.output (hK.suppress hs' _) _
  | ref r =>
    cases hid : m.grammar.resolve? r with
    | none =>
      simp only [step, hid]
      exact hs
    | some id =>
      cases hget : m.grammar.rules[id]? with
      | none =>
        simp only [step, hid, hget]
        trivial
      | some rule =>
        rw [step_ref m eval fuel pos s hid hget]
        exact hrule id rule pos s hget hs
  | node kind body =>
    rw [step_node]
    exact (heval body pos s hs).resume (fun _ _ hs' => hK.output hs' _) fun _ hs' => hs'
  | «scoped» set clear body =>
    rw [step_scoped]
    exact (heval body pos (flagged s ((s.flags.union set).diff clear)) (hK.flags hs _)).resume
      (fun _ _ hs' => hK.flags hs' _) fun _ hs' => hK.flags hs' _
  | gate flags whenSet body =>
    rw [step_gate]
    split
    · exact heval body pos s hs
    · exact hs
  | fold operand tails max =>
    rw [step_fold]
    exact (heval operand pos s hs).resume (foldFrom_preserves hK heval tails max _ _ 0)
      fun _ hs' => hs'

/-- **What rules keep, every evaluation keeps**, whatever fuel it is given. -/
theorem eval_preserves {ι : Type*} {K : ι → State → Prop} (hK : ∀ i, State.IsLasting (K i))
    (hrule : ∀ fuel, (∀ i, Preserves (K i) (m.eval fuel)) → ∀ i (id : Nat) (rule : Rule) pos s,
      m.grammar.rules[id]? = some rule → K i s →
        (m.applyRule (m.eval fuel) id rule pos s).Leaves (K i)) (fuel : Nat) :
    ∀ i, Preserves (K i) (m.eval fuel) := by
  induction fuel with
  | zero => exact fun _ _ _ _ _ => trivial
  | succ fuel ih => exact fun i => step_preserves (hK i) (ih i) (hrule fuel ih i) fuel

/-! ## Rules -/

/-- Applying a rule keeps what counting the step, passing a limit, giving what the table knows and
evaluating the rule's body keep. -/
theorem applyRule_preserves {id : Nat} {rule : Rule} {pos : Pos} {s : State}
    (hK : State.IsLasting K) (hs : K s)
    (hstepped : s.halted = false → K (stepped s))
    (hspent : s.halted = false → K { stepped s with exhausted := true })
    (hdeep : s.halted = false → m.limits.maxDepth.isSome → K { stepped s with tooDeep := true })
    (henter : s.halted = false → m.limits.maxSteps.any (· < s.steps + 1) = false →
      m.limits.maxDepth.any (· ≤ s.depth) = false →
      (enterRule eval rule ⟨id, pos, s.flags⟩ pos (stepped s)).Leaves K) :
    (m.applyRule eval id rule pos s).Leaves K := by
  cases hlive : s.halted with
  | true =>
    rw [applyRule_of_halted m eval pos s id rule hlive]
    exact hs
  | false =>
    rw [applyRule_eq m eval pos s id rule hlive]
    split
    · exact hspent hlive
    · next hsteps =>
      split
      · next hdepth =>
        obtain ⟨n, hn, -⟩ := (Option.any_eq_true ..).mp hdepth
        exact hdeep hlive (by simp [hn])
      · next hdepth =>
        unfold consult
        split
        · trivial
        · exact hstepped hlive
        · exact hK.output (hstepped hlive) _
        · exact henter hlive (eq_false_of_ne_true hsteps) (eq_false_of_ne_true hdepth)

end Machine
end Peg
end Packrat
