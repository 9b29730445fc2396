/-
# Limits and fuel that are enough

An evaluation that ends without having passed a limit ends in the same way with more fuel, and
with any other limits that it does not pass (`Machine.eval_persists`).  Which limits these are is
told by the state in which it ends (`Machine.Spares`):

| limit | is not passed if |
| --- | --- |
| on steps | it is no tighter than the one before, or no fewer steps are allowed than were taken |
| on depth | it is no tighter than the one before, or as deep as steps were taken |

The second row rests on each rule's being a step, so that an evaluation is never deeper than it
has taken steps (`State.IsShallow`).
-/

import Packrat.Proofs.Peg.Counting

namespace Packrat
namespace Peg

/-- The state in which an evaluation has ended. -/
def Outcome.state? : Outcome → Option State
  | .matched _ s | .failed s => some s
  | .fault _ => none

theorem Outcome.Leaves.of_state? {o : Outcome} {P : State → Prop} {s : State} (h : o.Leaves P)
    (hends : o.state? = some s) : P s := by
  cases o with
  | matched stop s' =>
    cases hends
    exact h
  | failed s' =>
    cases hends
    exact h
  | fault f => cases hends

/-- What goes on after another evaluation has ended only if that one has. -/
theorem Outcome.exists_state?_of_resume {o : Outcome} {onMatch : Pos → State → Outcome}
    {onFail : State → Outcome} {P : State → State → Prop} {t : State}
    (hmatch : ∀ stop s, (onMatch stop s).Leaves (P s)) (hfail : ∀ s, (onFail s).Leaves (P s))
    (hends : (o.resume onMatch onFail).state? = some t) : ∃ s, o.state? = some s ∧ P s t := by
  cases o with
  | matched stop s => exact ⟨s, rfl, (hmatch stop s).of_state? hends⟩
  | failed s => exact ⟨s, rfl, (hfail s).of_state? hends⟩
  | fault f => cases hends

/-- A limit is no looser than another. -/
def IsTighter (l l' : Option Nat) : Prop := ∀ n, l' = some n → ∃ k ≤ n, l = some k

theorem isTighter_none (l : Option Nat) : IsTighter l none := by simp [IsTighter]

theorem isTighter_refl (l : Option Nat) : IsTighter l l := fun n h => ⟨n, Nat.le_refl n, h⟩

theorem isTighter_some {n n' : Nat} (h : n ≤ n') : IsTighter (some n) (some n') :=
  fun _ h' => ⟨n, Option.some.inj h' ▸ h, rfl⟩

/-- What does not pass a limit does not pass a looser one. -/
theorem IsTighter.any_eq_false {l l' : Option Nat} (h : IsTighter l l') {passed : Nat → Bool}
    (hpassed : ∀ k n, k ≤ n → passed n = true → passed k = true) (hl : l.any passed = false) :
    l'.any passed = false := by
  cases l' with
  | none => rfl
  | some n =>
    obtain ⟨k, hle, rfl⟩ := h n rfl
    exact eq_false_of_ne_true fun hn => ne_true_of_eq_false hl (hpassed k n hle hn)

/-- No deeper than steps have been taken, but for the `c` rules around. -/
def State.IsShallow (c : Nat) (s : State) : Prop := s.depth ≤ s.steps + c

theorem State.isShallow_isLasting (c : Nat) : State.IsLasting (State.IsShallow c) where
  output hs _ := hs
  expect {s} hs pos what := by
    obtain ⟨failure, h⟩ := s.notes_expect pos what
    rw [h]
    exact hs
  flags hs _ := hs
  suppress hs _ := hs

namespace Machine

/-- The machine with other limits. -/
def within (m : Machine) (steps depth : Option Nat) : Machine :=
  { m with limits := { m.limits with maxSteps := steps, maxDepth := depth } }

theorem applyRule_within (m : Machine) (eval : Evaluator) (steps depth : Option Nat) (id : Nat)
    (rule : Rule) (pos : Pos) (s : State) (hlive : s.halted = false) :
    (m.within steps depth).applyRule eval id rule pos s =
      if steps.any (· < s.steps + 1) then .failed { stepped s with exhausted := true }
      else if depth.any (· ≤ s.depth) then .failed { stepped s with tooDeep := true }
      else consult m.limits.reuse eval rule ⟨id, pos, s.flags⟩ pos (stepped s) :=
  applyRule_eq _ _ _ _ _ _ hlive

/-! ## Depth -/

theorem isShallow_leavingMatched {c : Nat} (s : State) {s' : State} (rule : Rule)
    (key : MemoKey) (stop : Pos) (h : s'.IsShallow c) :
    (leavingMatched s rule key stop s').IsShallow c := by
  have hle : s'.depth - 1 ≤ s'.steps + c := Nat.le_trans (Nat.sub_le _ _) h
  unfold leavingMatched
  cases rule.kind <;> exact hle

theorem isShallow_leavingFailed {c : Nat} (pos : Pos) (s : State) {s' : State} (rule : Rule)
    (key : MemoKey) (h : s'.IsShallow c) : (leavingFailed pos s rule key s').IsShallow c := by
  have hle : s'.depth - 1 ≤ s'.steps + c := Nat.le_trans (Nat.sub_le _ _) h
  unfold leavingFailed
  cases rule.label with
  | none => exact hle
  | some label =>
    obtain ⟨failure, h⟩ :=
      State.notes_expectLabel ((leaving s s').truncate s.out.size) pos s.failure label
    simp only [h]
    exact hle

/-- **An evaluation is no deeper than it has taken steps.** -/
theorem eval_isShallow (m : Machine) (c fuel : Nat) :
    Preserves (State.IsShallow c) (m.eval fuel) := by
  refine eval_preserves State.isShallow_isLasting (fun fuel ih c id rule pos s _ hs => ?_) fuel c
  have hstepped : s.depth ≤ s.steps + 1 + c := by
    unfold State.IsShallow at hs
    omega
  refine applyRule_preserves (State.isShallow_isLasting c) hs (fun _ => hstepped)
    (fun _ => hstepped) (fun _ _ => hstepped) fun _ _ _ => ?_
  rw [enterRule_eq]
  -- entering goes one deeper, by the step that has just been counted
  have hentering : State.IsShallow c (entering pos (stepped s) rule ⟨id, pos, s.flags⟩) := by
    change s.depth + 1 ≤ s.steps + 1 + c
    unfold State.IsShallow at hs
    omega
  exact (ih c rule.body pos _ hentering).resume
    (fun stop _ => isShallow_leavingMatched (stepped s) rule _ stop)
    fun _ => isShallow_leavingFailed pos (stepped s) rule _

/-! ## Limits that are not passed -/

/-- With limits `steps` and `depth`, an evaluation that has ended in state `s` with limits
`steps'` and `depth'` would have passed none. -/
structure Spares (steps depth steps' depth' : Option Nat) (c : Nat) (s : State) : Prop where
  steps : IsTighter steps' steps ∨ ∀ n, steps = some n → s.steps ≤ n
  depth : IsTighter depth' depth ∨ ∀ d, depth = some d → s.steps + c ≤ d

variable {m : Machine} {steps depth steps' depth' : Option Nat} {c : Nat}

/-- What was not passed later was not passed before. -/
theorem Spares.before {s t : State} (h : Spares steps depth steps' depth' c t)
    (hle : s.steps ≤ t.steps) : Spares steps depth steps' depth' c s where
  steps := h.steps.imp_right fun h n hn => Nat.le_trans hle (h n hn)
  depth := h.depth.imp_right fun h d hd =>
    Nat.le_trans (Nat.add_le_add_right hle c) (h d hd)

/-- A step that was not too many, before the end, is not too many for the other limit. -/
theorem Spares.steps_any_eq_false {s t : State} (h : Spares steps depth steps' depth' c t)
    (hlt : s.steps < t.steps) (hpassed : ¬ steps'.any (· < s.steps + 1) = true) :
    steps.any (· < s.steps + 1) = false := by
  rcases h.steps with htighter | hle
  · exact htighter.any_eq_false (fun k n hle hn => by simp only [decide_eq_true_iff] at hn ⊢; omega)
      (eq_false_of_ne_true hpassed)
  · have hroom : ∀ n, steps = some n → s.steps + 1 ≤ n := fun n hn =>
      Nat.lt_of_lt_of_le hlt (hle n hn)
    exact (Option.any_eq_false ..).mpr fun n hn => by simpa using hroom n hn

/-- A rule that was not too deep, before the end, is not too deep for the other limit. -/
theorem Spares.depth_any_eq_false {s t : State} (h : Spares steps depth steps' depth' c t)
    (hs : s.IsShallow c) (hlt : s.steps < t.steps)
    (hpassed : ¬ depth'.any (· ≤ s.depth) = true) : depth.any (· ≤ s.depth) = false := by
  rcases h.depth with htighter | hle
  · exact htighter.any_eq_false (fun k n hle hn => by simp only [decide_eq_true_iff] at hn ⊢; omega)
      (eq_false_of_ne_true hpassed)
  · have hdeep : ∀ d, depth = some d → s.depth < d := fun d hd => by
      have hle := hle d hd
      unfold State.IsShallow at hs
      omega
    exact (Option.any_eq_false ..).mpr fun d hd => by simpa using hdeep d hd

/-- If the evaluation with outcome `o'` has ended without passing a limit, and would not pass
those of the other one, then that one has the same outcome `o`. -/
def Persists (steps depth steps' depth' : Option Nat) (c : Nat) (o o' : Outcome) : Prop :=
  ∀ s, o'.state? = some s → s.halted = false → Spares steps depth steps' depth' c s → o = o'

theorem Persists.refl (o : Outcome) : Persists steps depth steps' depth' c o o := fun _ _ _ _ => rfl

theorem persists_of_fault (o : Outcome) (f : Fault) :
    Persists steps depth steps' depth' c o (.fault f) := by
  rintro _ ⟨⟩

/-- Two evaluations that begin in the same way and go on in the same way. -/
theorem Persists.resume (m : Machine) {o o' : Outcome} {onMatch onMatch' : Pos → State → Outcome}
    {onFail onFail' : State → Outcome} (h : Persists steps depth steps' depth' c o o')
    (hshallow : o'.Leaves (State.IsShallow c))
    (hmatch : ∀ stop s, s.IsShallow c →
      Persists steps depth steps' depth' c (onMatch stop s) (onMatch' stop s))
    (hfail : ∀ s, s.IsShallow c → Persists steps depth steps' depth' c (onFail s) (onFail' s))
    (hmatched : ∀ stop s, (m.within steps' depth').CountsFrom s (onMatch' stop s))
    (hfailed : ∀ s, (m.within steps' depth').CountsFrom s (onFail' s)) :
    Persists steps depth steps' depth' c (o.resume onMatch onFail)
      (o'.resume onMatch' onFail') := by
  intro t ht hlive hspares
  -- the first part has ended as well, and has passed no limit either
  obtain ⟨s, hs, hleads⟩ := Outcome.exists_state?_of_resume hmatched hfailed ht
  have hlive' : s.halted = false := by
    refine eq_false_of_ne_true fun hhalted => ne_true_of_eq_false hlive ?_
    exact (congrArg Counters.halted (hleads.halted hhalted)).trans hhalted
  obtain rfl := h s hs hlive' (hspares.before hleads.steps_le)
  have hshallow' := hshallow.of_state? hs
  cases o with
  | matched stop s' =>
    cases hs
    exact hmatch stop s hshallow' t ht hlive hspares
  | failed s' =>
    cases hs
    exact hfail s hshallow' t ht hlive hspares
  | fault f => cases hs

/-! ## Loops -/

section

variable {eval eval' : Evaluator}
  (hcounts : ∀ t pos s, (m.within steps' depth').CountsFrom s (eval' t pos s))
  (hshallow : Preserves (State.IsShallow c) eval')
  (heval : ∀ t pos s, s.IsShallow c →
    Persists steps depth steps' depth' c (eval t pos s) (eval' t pos s))
include hcounts hshallow heval

theorem seqFrom_persists (mark : Nat) (ts : List Term) : ∀ pos s, s.IsShallow c →
    Persists steps depth steps' depth' c (seqFrom eval mark ts pos s)
      (seqFrom eval' mark ts pos s) := by
  induction ts with
  | nil => exact fun _ _ _ => .refl _
  | cons t ts ih =>
    intro pos s hs
    rw [seqFrom_cons, seqFrom_cons]
    exact .resume m (heval t pos s hs) (hshallow t pos s hs) ih (fun _ _ => .refl _)
      (seqFrom_counts hcounts mark ts) (fun _ => .refl _ _)

theorem choiceFrom_persists (mark : Nat) (pos : Pos) (ts : List Term) : ∀ s, s.IsShallow c →
    Persists steps depth steps' depth' c (choiceFrom eval mark pos ts s)
      (choiceFrom eval' mark pos ts s) := by
  induction ts with
  | nil => exact fun _ _ => .refl _
  | cons t ts ih =>
    intro s hs
    rw [choiceFrom_cons, choiceFrom_cons]
    exact .resume m (heval t pos s hs) (hshallow t pos s hs) (fun _ _ _ => .refl _)
      (fun s hs => ih (s.truncate mark) hs) (fun _ _ => .refl _ _)
      (fun s => choiceFrom_counts hcounts mark pos ts (s.truncate mark))

theorem repeatFrom_persists (t : Term) (fuel' : Nat) : ∀ fuel, fuel' ≤ fuel →
    ∀ pos s, s.IsShallow c → Persists steps depth steps' depth' c (repeatFrom eval t fuel pos s)
      (repeatFrom eval' t fuel' pos s) := by
  induction fuel' with
  | zero => exact fun _ _ _ _ _ => persists_of_fault _ _
  | succ fuel' ih =>
    intro fuel hle pos s hs
    obtain ⟨fuel, rfl⟩ := Nat.exists_eq_add_one_of_ne_zero (Nat.ne_zero_of_lt hle)
    rw [repeatFrom_succ, repeatFrom_succ]
    refine .resume m (heval t pos s hs) (hshallow t pos s hs) (fun stop s' hs' => ?_)
      (fun _ _ => .refl _) (fun stop s' => ?_) (fun _ => .refl _ _)
    · split
      · exact .refl _
      · exact ih fuel (Nat.le_of_succ_le_succ hle) stop s' hs'
    · split
      · exact .refl _ _
      · exact repeatFrom_counts hcounts t fuel' stop s'

theorem tailFrom_persists (mark : Nat) (pos : Pos) (tails : List (Kind × Term)) :
    ∀ s, s.IsShallow c → Persists steps depth steps' depth' c (tailFrom eval mark pos tails s)
      (tailFrom eval' mark pos tails s) := by
  induction tails with
  | nil => exact fun _ _ => .refl _
  | cons tail tails ih =>
    intro s hs
    rw [tailFrom_cons, tailFrom_cons]
    exact .resume m (heval tail.2 pos s hs) (hshallow tail.2 pos s hs) (fun _ _ _ => .refl _)
      (fun s' hs' => ih (s'.truncate s.out.size) hs') (fun _ _ => .refl _ _)
      (fun s' => tailFrom_counts hcounts mark pos tails (s'.truncate s.out.size))

theorem foldFrom_persists (tails : List (Kind × Term)) (max : Option Nat) (mark fuel' : Nat) :
    ∀ fuel, fuel' ≤ fuel → ∀ folded pos s, s.IsShallow c →
      Persists steps depth steps' depth' c (foldFrom eval tails max mark fuel folded pos s)
        (foldFrom eval' tails max mark fuel' folded pos s) := by
  induction fuel' with
  | zero => exact fun _ _ _ _ _ _ => persists_of_fault _ _
  | succ fuel' ih =>
    intro fuel hle folded pos s hs
    obtain ⟨fuel, rfl⟩ := Nat.exists_eq_add_one_of_ne_zero (Nat.ne_zero_of_lt hle)
    rw [foldFrom_succ, foldFrom_succ]
    split
    · exact .refl _
    · exact .resume m (tailFrom_persists hcounts hshallow heval mark pos tails s hs)
        (tailFrom_preserves (State.isShallow_isLasting c) hshallow mark pos tails s hs)
        (ih fuel (Nat.le_of_succ_le_succ hle) (folded + 1)) (fun _ _ => .refl _)
        (foldFrom_counts hcounts tails max mark fuel' (folded + 1)) (fun _ => .refl _ _)

/-! ## Rules and terms -/

omit hcounts in
theorem enterRule_persists (m : Machine) (rule : Rule) (key : MemoKey) (pos : Pos) (s : State)
    (hs : (entering pos s rule key).IsShallow c) :
    Persists steps depth steps' depth' c (enterRule eval rule key pos s)
      (enterRule eval' rule key pos s) := by
  rw [enterRule_eq, enterRule_eq]
  refine .resume m (heval rule.body pos _ hs) (hshallow rule.body pos _ hs)
    (fun _ _ _ => .refl _) (fun _ _ => .refl _) (fun stop s' => ?_) fun s' => ?_
  · change s'.counters.Leads _ (leavingMatched s rule key stop s').counters
    rw [counters_leavingMatched]
    exact .refl _ _
  · change s'.counters.Leads _ (leavingFailed pos s rule key s').counters
    rw [counters_leavingFailed]
    exact .refl _ _

/-- A limit that is not passed in the end is not passed by this rule. -/
theorem applyRule_persists (id : Nat) (rule : Rule) (pos : Pos) (s : State) (hs : s.IsShallow c) :
    Persists steps depth steps' depth' c ((m.within steps depth).applyRule eval id rule pos s)
      ((m.within steps' depth').applyRule eval' id rule pos s) := by
  cases hlive : s.halted with
  | true =>
    rw [applyRule_of_halted _ _ _ _ _ _ hlive, applyRule_of_halted _ _ _ _ _ _ hlive]
    exact .refl _
  | false =>
    intro t ht hlive' hspares
    have hlt : s.steps < t.steps := (applyRule_step hcounts id rule pos s hlive).of_state? ht
    rw [applyRule_within m eval' steps' depth' id rule pos s hlive] at ht ⊢
    rw [applyRule_within m eval steps depth id rule pos s hlive]
    split at ht
    · cases ht
      simp [State.halted] at hlive'
    · next hsteps' =>
      split at ht
      · cases ht
        simp [State.halted] at hlive'
      · next hdepth' =>
        have hsteps := hspares.steps_any_eq_false hlt hsteps'
        have hdepth := hspares.depth_any_eq_false hs hlt hdepth'
        rw [if_neg (ne_true_of_eq_false hsteps), if_neg (ne_true_of_eq_false hdepth),
          if_neg hsteps', if_neg hdepth']
        unfold consult at ht ⊢
        split at ht
        · rfl
        · rfl
        · rfl
        · have hentering : (entering pos (stepped s) rule ⟨id, pos, s.flags⟩).IsShallow c := by
            change s.depth + 1 ≤ s.steps + 1 + c
            unfold State.IsShallow at hs
            omega
          exact enterRule_persists hshallow heval m rule _ pos (stepped s) hentering t ht hlive'
            hspares

/-- One step of evaluation keeps its outcome, if the evaluation of the terms inside does. -/
theorem step_persists {fuel fuel' : Nat} (hle : fuel' ≤ fuel) (t : Term) (pos : Pos) (s : State)
    (hs : s.IsShallow c) :
    Persists steps depth steps' depth' c ((m.within steps depth).step fuel eval t pos s)
      ((m.within steps' depth').step fuel' eval' t pos s) := by
  cases t with
  | token _ | split _ | word _ | any | ended => exact .refl _
  | seq items => exact seqFrom_persists hcounts hshallow heval _ items pos s hs
  | choice alternatives => exact choiceFrom_persists hcounts hshallow heval _ pos alternatives s hs
  | opt body =>
    rw [step_opt, step_opt]
    exact .resume m (heval body pos s hs) (hshallow body pos s hs) (fun _ _ _ => .refl _)
      (fun _ _ => .refl _) (fun _ _ => .refl _ _) (fun _ => .refl _ _)
  | star body => exact repeatFrom_persists hcounts hshallow heval body fuel' fuel hle pos s hs
  | plus body =>
    rw [step_plus, step_plus]
    exact .resume m (heval body pos s hs) (hshallow body pos s hs)
      (repeatFrom_persists hcounts hshallow heval body fuel' fuel hle) (fun _ _ => .refl _)
      (repeatFrom_counts hcounts body fuel') (fun _ => .refl _ _)
  | ahead body =>
    rw [step_ahead, step_ahead]
    exact .resume m (heval body pos s hs) (hshallow body pos s hs) (fun _ _ _ => .refl _)
      (fun _ _ => .refl _) (fun _ _ => .refl _ _) (fun _ => .refl _ _)
  | notAhead body =>
    rw [step_notAhead, step_notAhead]
    exact .resume m (heval body pos (muted s) hs) (hshallow body pos (muted s) hs)
      (fun _ _ _ => .refl _) (fun _ _ => .refl _) (fun _ _ => .refl _ _) (fun _ => .refl _ _)
  | ref r =>
    cases hid : m.grammar.resolve? r with
    | none =>
      have hnone : ∀ (n d : Option Nat) (k : Nat) (e : Evaluator),
          (m.within n d).step k e (.ref r) pos s = .failed s := fun n d k e => by
        simp [step, within, hid]
      rw [hnone, hnone]
      exact .refl _
    | some id =>
      cases hrule : m.grammar.rules[id]? with
      | none =>
        have hnone : (m.within steps' depth').step fuel' eval' (.ref r) pos s =
            .fault (.noRule id m.grammar.rules.size) := by simp [step, within, hid, hrule]
        rw [hnone]
        exact persists_of_fault _ _
      | some rule =>
        rw [step_ref (m.within steps depth) _ _ _ _ hid hrule,
          step_ref (m.within steps' depth') _ _ _ _ hid hrule]
        exact applyRule_persists hcounts hshallow heval id rule pos s hs
  | node kind body =>
    rw [step_node, step_node]
    exact .resume m (heval body pos s hs) (hshallow body pos s hs) (fun _ _ _ => .refl _)
      (fun _ _ => .refl _) (fun _ _ => .refl _ _) (fun _ => .refl _ _)
  | «scoped» set clear body =>
    rw [step_scoped, step_scoped]
    exact .resume m (heval body pos (flagged s ((s.flags.union set).diff clear)) hs)
      (hshallow body pos (flagged s ((s.flags.union set).diff clear)) hs) (fun _ _ _ => .refl _)
      (fun _ _ => .refl _) (fun _ _ => .refl _ _) (fun _ => .refl _ _)
  | gate flags whenSet body =>
    rw [step_gate, step_gate]
    split
    · exact heval body pos s hs
    · exact .refl _
  | fold operand tails max =>
    rw [step_fold, step_fold]
    have hrounds : foldRounds fuel' max ≤ foldRounds fuel max := by
      cases max with
      | none => exact hle
      | some n => exact Nat.le_refl _
    exact .resume m (heval operand pos s hs) (hshallow operand pos s hs)
      (foldFrom_persists hcounts hshallow heval tails max _ _ _ hrounds 0) (fun _ _ => .refl _)
      (foldFrom_counts hcounts tails max _ _ 0) (fun _ => .refl _ _)

end

/-- **What ends keeps its outcome** with more fuel, and with other limits as long as it does
not pass them. -/
theorem eval_persists (m : Machine) (steps depth steps' depth' : Option Nat) (c fuel' : Nat) :
    ∀ fuel, fuel' ≤ fuel → ∀ t pos s, s.IsShallow c →
      Persists steps depth steps' depth' c ((m.within steps depth).eval fuel t pos s)
        ((m.within steps' depth').eval fuel' t pos s) := by
  induction fuel' with
  | zero => exact fun _ _ _ _ _ _ => persists_of_fault _ _
  | succ fuel' ih =>
    intro fuel hle t pos s hs
    obtain ⟨fuel, rfl⟩ := Nat.exists_eq_add_one_of_ne_zero (Nat.ne_zero_of_lt hle)
    exact step_persists (eval_counts _ fuel') (eval_isShallow _ c fuel')
      (ih fuel (Nat.le_of_succ_le_succ hle)) (Nat.le_of_succ_le_succ hle) t pos s hs

/-- What has ended without passing a limit ends in the same way with more fuel. -/
theorem eval_eq_of_le {fuel fuel' : Nat} (hle : fuel' ≤ fuel) {t : Term} {pos : Pos}
    {s s' : State} (hends : (m.eval fuel' t pos s).state? = some s') (hlive : s'.halted = false) :
    m.eval fuel t pos s = m.eval fuel' t pos s :=
  eval_persists m m.limits.maxSteps m.limits.maxDepth m.limits.maxSteps m.limits.maxDepth s.depth
    fuel' fuel hle t pos s (Nat.le_add_left ..) s' hends hlive
    ⟨.inl (isTighter_refl _), .inl (isTighter_refl _)⟩

end Machine
end Peg
end Packrat
