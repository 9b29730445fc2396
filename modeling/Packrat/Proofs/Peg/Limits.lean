/-
# Limits only put an end to a run

Two runs over the same tokens, of which the first has tighter limits, go side by side until
the first passes one of its limits (`Machine.eval_follows`).  From there on every rule fails in
the first run, so what it matches means nothing; but that a limit has been passed is never
forgotten, and the second run has by then taken the steps, or gone to the depth, that the
first one may not (`Machine.Tripped`).  So a run with limits ends like the run without them, or
as the limit says (`Machine.limits_only_stop`):

| run | ends like the run without limits | otherwise |
| --- | --- | --- |
| at most `n` steps | if that one takes no more | with the budget passed at step `n + 1` |
| at most `d` deep | from some `d` on, which is no more than its steps | too deep |
| both | if both hold | in one of these two ways |

In the middle column the limited run is there: limits that are not passed are not felt
(`Machine.eval_persists`).  In the last one it may not end: when all rules fail, a negative
lookahead matches, and a fold without a limit may then go on for ever (`Machine.budget_runs_on`).
With an accepted grammar of steady rules every run ends, whatever its limits.
-/

import Packrat.Proofs.Peg.Ending
import Packrat.Proofs.Peg.Enough
import Packrat.Proofs.Peg.Faithful

namespace Packrat
namespace Peg

namespace Machine

/-- The first run has passed a limit.  The second, which may take as many steps or more, has
taken more steps than the first one may, or gone deeper if it has the same limit. -/
structure Tripped (steps depth depth' : Option Nat) (s s' : State) : Prop where
  halted : s.halted = true
  spent : s.exhausted = true → ∀ n, steps = some n → n < s'.steps
  deep : s.tooDeep = true → depth = depth' → s'.tooDeep = true

variable {m : Machine} {steps steps' depth depth' : Option Nat}

/-- Going on does not undo it. -/
theorem Tripped.leads {l l' : Limits} {s s' t t' : State}
    (h : Tripped steps depth depth' s s') (hs : s.counters.Leads l t.counters)
    (hs' : s'.counters.Leads l' t'.counters) : Tripped steps depth depth' t t' := by
  have heq : t.counters = s.counters := hs.halted h.halted
  have hspent : t.exhausted = s.exhausted := congrArg Counters.exhausted heq
  have hdeep : t.tooDeep = s.tooDeep := congrArg Counters.tooDeep heq
  refine ⟨?_, fun ht n hn => ?_, fun ht hd => ?_⟩
  · have hhalted := h.halted
    unfold State.halted at hhalted ⊢
    rw [hspent, hdeep, hhalted]
  · exact Nat.lt_of_lt_of_le (h.spent (hspent ▸ ht) n hn) hs'.steps_le
  · have hdeep' := h.deep (hdeep ▸ ht) hd
    have heq' : t'.counters = s'.counters :=
      hs'.halted (by simp [Counters.halted, State.counters, hdeep'])
    rw [show t'.tooDeep = s'.tooDeep from congrArg Counters.tooDeep heq', hdeep']

/-- The outcome `o` of a run with limits, beside the outcome `o'` of a run with looser limits:
they are the same, or the first run has passed a limit. -/
def Follows (steps depth depth' : Option Nat) (o o' : Outcome) : Prop :=
  ∀ s s', o.state? = some s → o'.state? = some s' →
    o = o' ∧ s.halted = false ∨ Tripped steps depth depth' s s'

theorem follows_matched {pos : Pos} {s : State} (hlive : s.halted = false) :
    Follows steps depth depth' (.matched pos s) (.matched pos s) := by
  rintro _ _ ⟨⟩ -
  exact .inl ⟨rfl, hlive⟩

theorem follows_failed {s : State} (hlive : s.halted = false) :
    Follows steps depth depth' (.failed s) (.failed s) := by
  rintro _ _ ⟨⟩ -
  exact .inl ⟨rfl, hlive⟩

theorem follows_fault (f : Fault) (o' : Outcome) :
    Follows steps depth depth' (.fault f) o' := by
  rintro _ _ ⟨⟩

theorem follows_of_fault (o : Outcome) (f : Fault) :
    Follows steps depth depth' o (.fault f) := by
  rintro _ _ - ⟨⟩

end Machine

/-- Reading a token passes no limit. -/
theorem Outcome.ReadsAs.follows {m : Machine} {steps depth depth' : Option Nat} {o : Outcome}
    {pos : Pos} {s : State} {a : Answer} (h : o.ReadsAs m pos s a) (hlive : s.halted = false) :
    Machine.Follows steps depth depth' o o := by
  cases o with
  | matched stop s' =>
    obtain ⟨ns, -, rfl⟩ := h
    exact Machine.follows_matched hlive
  | failed s' =>
    obtain ⟨-, failure, rfl⟩ := h
    exact Machine.follows_failed hlive
  | fault f => exact Machine.follows_fault f _

namespace Machine

variable {m : Machine} {steps steps' depth depth' : Option Nat}

/-- Two runs that begin in one state, in which no limit has been passed, and go on in the same
way: the second does not get out of step before the first has passed a limit. -/
theorem Follows.resume (m : Machine) (steps' : Option Nat) {o o' : Outcome}
    {onMatch onMatch' : Pos → State → Outcome} {onFail onFail' : State → Outcome}
    (h : Follows steps depth depth' o o')
    (hmatch : ∀ stop s, s.halted = false →
      Follows steps depth depth' (onMatch stop s) (onMatch' stop s))
    (hfail : ∀ s, s.halted = false → Follows steps depth depth' (onFail s) (onFail' s))
    (hmatched : ∀ stop s, (m.within steps depth).CountsFrom s (onMatch stop s))
    (hmatched' : ∀ stop s, (m.within steps' depth').CountsFrom s (onMatch' stop s))
    (hfailed : ∀ s, (m.within steps depth).CountsFrom s (onFail s))
    (hfailed' : ∀ s, (m.within steps' depth').CountsFrom s (onFail' s)) :
    Follows steps depth depth' (o.resume onMatch onFail) (o'.resume onMatch' onFail') := by
  intro t t' ht ht'
  -- both first parts have ended, and what comes after only adds to their counters
  obtain ⟨s, hs, hcounts⟩ := Outcome.exists_state?_of_resume hmatched hfailed ht
  obtain ⟨s', hs', hcounts'⟩ := Outcome.exists_state?_of_resume hmatched' hfailed' ht'
  rcases h s s' hs hs' with ⟨rfl, hlive⟩ | htripped
  · cases o with
    | matched stop s =>
      cases hs
      exact hmatch stop _ hlive t t' ht ht'
    | failed s =>
      cases hs
      exact hfail _ hlive t t' ht ht'
    | fault f => cases hs
  · exact .inr (htripped.leads hcounts hcounts')

/-! ## Loops -/

section

variable {eval eval' : Evaluator}
  (hcounts : ∀ t pos s, (m.within steps depth).CountsFrom s (eval t pos s))
  (hcounts' : ∀ t pos s, (m.within steps' depth').CountsFrom s (eval' t pos s))
  (heval : ∀ t pos s, s.halted = false →
    Follows steps depth depth' (eval t pos s) (eval' t pos s))
include hcounts hcounts' heval

theorem seqFrom_follows (mark : Nat) (ts : List Term) : ∀ pos s, s.halted = false →
    Follows steps depth depth' (seqFrom eval mark ts pos s) (seqFrom eval' mark ts pos s) := by
  induction ts with
  | nil => exact fun _ _ hlive => follows_matched hlive
  | cons t ts ih =>
    intro pos s hlive
    rw [seqFrom_cons, seqFrom_cons]
    exact .resume m steps' (heval t pos s hlive) ih
      (fun s hlive => follows_failed hlive)
      (seqFrom_counts hcounts mark ts) (seqFrom_counts hcounts' mark ts)
      (fun _ => .refl _ _) (fun _ => .refl _ _)

theorem choiceFrom_follows (mark : Nat) (pos : Pos) (ts : List Term) : ∀ s, s.halted = false →
    Follows steps depth depth' (choiceFrom eval mark pos ts s)
      (choiceFrom eval' mark pos ts s) := by
  induction ts with
  | nil => exact fun _ hlive => follows_failed hlive
  | cons t ts ih =>
    intro s hlive
    rw [choiceFrom_cons, choiceFrom_cons]
    exact .resume m steps' (heval t pos s hlive)
      (fun _ _ hlive => follows_matched hlive) (fun s hlive => ih (s.truncate mark) hlive)
      (fun _ _ => .refl _ _) (fun _ _ => .refl _ _)
      (fun s => choiceFrom_counts hcounts mark pos ts (s.truncate mark))
      (fun s => choiceFrom_counts hcounts' mark pos ts (s.truncate mark))

/-- The two runs need not be given the same number of rounds. -/
theorem repeatFrom_follows (t : Term) (fuel : Nat) : ∀ fuel' pos s, s.halted = false →
    Follows steps depth depth' (repeatFrom eval t fuel pos s)
      (repeatFrom eval' t fuel' pos s) := by
  induction fuel with
  | zero => exact fun _ _ _ _ => follows_fault _ _
  | succ fuel ih =>
    intro fuel' pos s hlive
    cases fuel' with
    | zero => exact follows_of_fault _ _
    | succ fuel' =>
      rw [repeatFrom_succ, repeatFrom_succ]
      refine .resume m steps' (heval t pos s hlive) (fun stop s' hlive => ?_)
        (fun s' hlive => follows_matched hlive) (fun stop s' => ?_) (fun stop s' => ?_)
        (fun _ => .refl _ _) (fun _ => .refl _ _)
      · split
        · exact follows_matched hlive
        · exact ih fuel' stop s' hlive
      · split
        · exact .refl _ _
        · exact repeatFrom_counts hcounts t fuel stop s'
      · split
        · exact .refl _ _
        · exact repeatFrom_counts hcounts' t fuel' stop s'

theorem tailFrom_follows (mark : Nat) (pos : Pos) (tails : List (Kind × Term)) :
    ∀ s, s.halted = false → Follows steps depth depth' (tailFrom eval mark pos tails s)
      (tailFrom eval' mark pos tails s) := by
  induction tails with
  | nil => exact fun _ hlive => follows_failed hlive
  | cons tail tails ih =>
    intro s hlive
    rw [tailFrom_cons, tailFrom_cons]
    exact .resume m steps' (heval tail.2 pos s hlive)
      (fun _ _ hlive => follows_matched hlive)
      (fun s' hlive => ih (s'.truncate s.out.size) hlive)
      (fun _ _ => .refl _ _) (fun _ _ => .refl _ _)
      (fun s' => tailFrom_counts hcounts mark pos tails (s'.truncate s.out.size))
      (fun s' => tailFrom_counts hcounts' mark pos tails (s'.truncate s.out.size))

theorem foldFrom_follows (tails : List (Kind × Term)) (max : Option Nat) (mark fuel : Nat) :
    ∀ fuel' folded pos s, s.halted = false →
      Follows steps depth depth' (foldFrom eval tails max mark fuel folded pos s)
        (foldFrom eval' tails max mark fuel' folded pos s) := by
  induction fuel with
  | zero => exact fun _ _ _ _ _ => follows_fault _ _
  | succ fuel ih =>
    intro fuel' folded pos s hlive
    cases fuel' with
    | zero => exact follows_of_fault _ _
    | succ fuel' =>
      rw [foldFrom_succ, foldFrom_succ]
      split
      · exact follows_matched hlive
      · exact .resume m steps' (tailFrom_follows hcounts hcounts' heval mark pos tails s hlive)
          (ih fuel' (folded + 1)) (fun _ hlive => follows_matched hlive)
          (foldFrom_counts hcounts tails max mark fuel (folded + 1))
          (foldFrom_counts hcounts' tails max mark fuel' (folded + 1))
          (fun _ => .refl _ _) (fun _ => .refl _ _)

end

/-! ## Rules and terms -/

section

variable {eval eval' : Evaluator}
  (heval : ∀ t pos s, s.halted = false →
    Follows steps depth depth' (eval t pos s) (eval' t pos s))
include heval

theorem enterRule_follows (m : Machine) (rule : Rule) (key : MemoKey) (pos : Pos) (s : State)
    (hlive : s.halted = false) : Follows steps depth depth' (enterRule eval rule key pos s)
      (enterRule eval' rule key pos s) := by
  have hsame : ∀ stop s', (leavingMatched s rule key stop s').counters = s'.counters :=
    fun stop s' => counters_leavingMatched s s' rule key stop
  have hsame' : ∀ s', (leavingFailed pos s rule key s').counters = s'.counters :=
    fun s' => counters_leavingFailed pos s s' rule key
  have hcount : ∀ (l : Limits) (s s' : State), s'.counters = s.counters →
      s.counters.Leads l s'.counters := fun l s s' h => h ▸ .refl l _
  have hhalted : ∀ s s' : State, s'.counters = s.counters → s'.halted = s.halted :=
    fun s s' h => congrArg Counters.halted h
  rw [enterRule_eq, enterRule_eq]
  exact .resume m none (heval rule.body pos (entering pos s rule key) hlive)
    (fun stop s' hlive => follows_matched ((hhalted s' _ (hsame stop s')).trans hlive))
    (fun s' hlive => follows_failed ((hhalted s' _ (hsame' s')).trans hlive))
    (fun stop s' => hcount _ _ _ (hsame stop s')) (fun stop s' => hcount _ _ _ (hsame stop s'))
    (fun s' => hcount _ _ _ (hsame' s')) (fun s' => hcount _ _ _ (hsame' s'))

theorem consult_follows (m : Machine) (reuse : Bool) (rule : Rule) (key : MemoKey) (pos : Pos)
    (s : State) (hlive : s.halted = false) :
    Follows steps depth depth' (consult reuse eval rule key pos s)
      (consult reuse eval' rule key pos s) := by
  unfold consult
  split
  · exact follows_fault _ _
  · exact follows_failed hlive
  · exact follows_matched hlive
  · exact enterRule_follows heval m rule key pos s hlive

/-- Where the first run passes a limit, the second takes as many steps and is as deep. -/
theorem applyRule_follows (hsteps : IsTighter steps steps') (hdepth : IsTighter depth depth')
    (hcounts' : ∀ t pos s, (m.within steps' depth').CountsFrom s (eval' t pos s)) (id : Nat)
    (rule : Rule) (pos : Pos) (s : State) (hlive : s.halted = false) :
    Follows steps depth depth' ((m.within steps depth).applyRule eval id rule pos s)
      ((m.within steps' depth').applyRule eval' id rule pos s) := by
  obtain ⟨hexhausted, htooDeep⟩ : s.exhausted = false ∧ s.tooDeep = false := by
    simpa [State.halted] using hlive
  have hstep := applyRule_step hcounts' id rule pos s hlive
  have hfirst := applyRule_within m eval steps depth id rule pos s hlive
  have hsecond := applyRule_within m eval' steps' depth' id rule pos s hlive
  by_cases hspent : steps.any (· < s.steps + 1) = true
  · rw [if_pos hspent] at hfirst
    rintro t t' ht ht'
    rw [hfirst] at ht
    cases ht
    refine .inr ⟨rfl, fun _ n hn => ?_, fun hdeep => by simp [stepped, htooDeep] at hdeep⟩
    have hlt : n < s.steps + 1 := by simpa [hn] using hspent
    exact Nat.lt_of_lt_of_le hlt (hstep.of_state? ht')
  · have hspent' := hsteps.any_eq_false
      (fun k n hle hn => by simp only [decide_eq_true_iff] at hn ⊢; omega)
      (eq_false_of_ne_true hspent)
    rw [if_neg hspent] at hfirst
    rw [if_neg (ne_true_of_eq_false hspent')] at hsecond
    by_cases hdeep : depth.any (· ≤ s.depth) = true
    · rw [if_pos hdeep] at hfirst
      intro t t' ht ht'
      rw [hfirst] at ht
      cases ht
      -- with the same depth limit the second run stops here as well
      refine .inr ⟨by simp [State.halted], fun h => by simp [stepped, hexhausted] at h,
        fun _ heq => ?_⟩
      rw [hsecond, if_pos (heq ▸ hdeep)] at ht'
      cases ht'
      rfl
    · have hdeep' := hdepth.any_eq_false
        (fun k n hle hn => by simp only [decide_eq_true_iff] at hn ⊢; omega)
        (eq_false_of_ne_true hdeep)
      rw [if_neg hdeep] at hfirst
      rw [if_neg (ne_true_of_eq_false hdeep')] at hsecond
      rw [hfirst, hsecond]
      exact consult_follows heval m _ rule _ pos (stepped s) hlive

end

/-- One step of evaluation keeps two runs in step, if the evaluation of the terms inside does. -/
theorem step_follows (hsteps : IsTighter steps steps') (hdepth : IsTighter depth depth')
    {eval eval' : Evaluator}
    (hcounts : ∀ t pos s, (m.within steps depth).CountsFrom s (eval t pos s))
    (hcounts' : ∀ t pos s, (m.within steps' depth').CountsFrom s (eval' t pos s))
    (heval : ∀ t pos s, s.halted = false →
      Follows steps depth depth' (eval t pos s) (eval' t pos s))
    (fuel fuel' : Nat) (t : Term) (pos : Pos) (s : State) (hlive : s.halted = false) :
    Follows steps depth depth' ((m.within steps depth).step fuel eval t pos s)
      ((m.within steps' depth').step fuel' eval' t pos s) := by
  cases t with
  | token kind => exact (m.readToken_readsAs pos s kind).follows hlive
  | split kind => exact (m.readSplit_readsAs pos s kind).follows hlive
  | word text => exact (m.readWord_readsAs pos s text).follows hlive
  | any => exact (m.readAny_readsAs pos s).follows hlive
  | ended => exact (m.readEnd_readsAs pos s).follows hlive
  | seq items => exact seqFrom_follows hcounts hcounts' heval _ items pos s hlive
  | choice alternatives =>
    exact choiceFrom_follows hcounts hcounts' heval _ pos alternatives s hlive
  | opt body =>
    rw [step_opt, step_opt]
    exact .resume m steps' (heval body pos s hlive)
      (fun _ _ hlive => follows_matched hlive) (fun _ hlive => follows_matched hlive)
      (fun _ _ => .refl _ _) (fun _ _ => .refl _ _) (fun _ => .refl _ _) (fun _ => .refl _ _)
  | star body => exact repeatFrom_follows hcounts hcounts' heval body fuel fuel' pos s hlive
  | plus body =>
    rw [step_plus, step_plus]
    exact .resume m steps' (heval body pos s hlive)
      (repeatFrom_follows hcounts hcounts' heval body fuel fuel')
      (fun _ hlive => follows_failed hlive)
      (repeatFrom_counts hcounts body fuel) (repeatFrom_counts hcounts' body fuel')
      (fun _ => .refl _ _) (fun _ => .refl _ _)
  | ahead body =>
    rw [step_ahead, step_ahead]
    exact .resume m steps' (heval body pos s hlive)
      (fun _ _ hlive => follows_matched hlive) (fun _ hlive => follows_failed hlive)
      (fun _ _ => .refl _ _) (fun _ _ => .refl _ _) (fun _ => .refl _ _) (fun _ => .refl _ _)
  | notAhead body =>
    rw [step_notAhead, step_notAhead]
    exact .resume m steps' (heval body pos (muted s) hlive)
      (fun _ _ hlive => follows_failed hlive) (fun _ hlive => follows_matched hlive)
      (fun _ _ => .refl _ _) (fun _ _ => .refl _ _) (fun _ => .refl _ _) (fun _ => .refl _ _)
  | ref r =>
    cases hid : m.grammar.resolve? r with
    | none =>
      have hnone : ∀ (n d : Option Nat) (k : Nat) (e : Evaluator),
          (m.within n d).step k e (.ref r) pos s = .failed s := fun n d k e => by
        simp [step, within, hid]
      rw [hnone, hnone]
      exact follows_failed hlive
    | some id =>
      cases hrule : m.grammar.rules[id]? with
      | none =>
        have hnone : (m.within steps depth).step fuel eval (.ref r) pos s =
            .fault (.noRule id m.grammar.rules.size) := by simp [step, within, hid, hrule]
        rw [hnone]
        exact follows_fault _ _
      | some rule =>
        rw [step_ref (m.within steps depth) _ _ _ _ hid hrule,
          step_ref (m.within steps' depth') _ _ _ _ hid hrule]
        exact applyRule_follows heval hsteps hdepth hcounts' id rule pos s hlive
  | node kind body =>
    rw [step_node, step_node]
    exact .resume m steps' (heval body pos s hlive)
      (fun _ _ hlive => follows_matched hlive) (fun _ hlive => follows_failed hlive)
      (fun _ _ => .refl _ _) (fun _ _ => .refl _ _) (fun _ => .refl _ _) (fun _ => .refl _ _)
  | «scoped» set clear body =>
    rw [step_scoped, step_scoped]
    exact .resume m steps' (heval body pos (flagged s ((s.flags.union set).diff clear)) hlive)
      (fun _ _ hlive => follows_matched hlive) (fun _ hlive => follows_failed hlive)
      (fun _ _ => .refl _ _) (fun _ _ => .refl _ _) (fun _ => .refl _ _) (fun _ => .refl _ _)
  | gate flags whenSet body =>
    rw [step_gate, step_gate]
    split
    · exact heval body pos s hlive
    · exact follows_failed hlive
  | fold operand tails max =>
    rw [step_fold, step_fold]
    exact .resume m steps' (heval operand pos s hlive)
      (foldFrom_follows hcounts hcounts' heval tails max _ _ _ 0)
      (fun _ hlive => follows_failed hlive)
      (foldFrom_counts hcounts tails max _ _ 0) (foldFrom_counts hcounts' tails max _ _ 0)
      (fun _ => .refl _ _) (fun _ => .refl _ _)

/-- **Limits keep in step.**  An evaluation with limits does what one with looser limits does,
until it passes one of them, whatever fuel the two are given. -/
theorem eval_follows (hsteps : IsTighter steps steps') (hdepth : IsTighter depth depth')
    (fuel : Nat) : ∀ fuel' t pos s, s.halted = false →
    Follows steps depth depth' ((m.within steps depth).eval fuel t pos s)
      ((m.within steps' depth').eval fuel' t pos s) := by
  induction fuel with
  | zero => exact fun _ _ _ _ _ => follows_fault _ _
  | succ fuel ih =>
    intro fuel' t pos s hlive
    cases fuel' with
    | zero => exact follows_of_fault _ _
    | succ fuel' =>
      exact step_follows hsteps hdepth (eval_counts _ fuel) (eval_counts _ fuel') (ih fuel') fuel
        fuel' t pos s hlive

/-! ## Runs -/

/-- The end of a run, from the end of the evaluation of its root. -/
def closeRun (m : Machine) : Outcome → Except Fault Run
  | .fault f => .error f
  | .matched stop s => .ok (runWith.ended m s (.ok (s.out.toList, stop)))
  | .failed s => .ok (runWith.ended m { s with failure := if s.halted then s.failure else {} }
      (.error (.failure s.failure)))

theorem runWith_eq (m : Machine) (fuel : Nat) (root : Term) (s : State) :
    m.runWith fuel root s = m.closeRun (m.eval fuel root {} { s with out := #[] }) := by
  rw [runWith]
  cases m.eval fuel root {} { s with out := #[] } <;> rfl

/-- A run that has ended: what its root left, and what becomes of it. -/
theorem closeRun_eq_ok {m : Machine} {o : Outcome} {r : Run} (h : m.closeRun o = .ok r) :
    ∃ s, o.state? = some s ∧ r.state.counters = s.counters ∧
      (s.exhausted = true → r.result = .error (.budget s.steps)) ∧
      (s.exhausted = false → s.tooDeep = true →
        r.result = .error (.depth (m.limits.maxDepth.getD s.depth))) ∧
      (s.halted = false → ∀ n, r.result ≠ .error (.depth n)) := by
  cases o with
  | matched stop s =>
    cases h
    refine ⟨s, rfl, ?_⟩
    unfold runWith.ended
    cases hspent : s.exhausted <;> cases hdeep : s.tooDeep <;> simp [State.halted, hspent, hdeep]
  | failed s =>
    cases h
    refine ⟨s, rfl, ?_⟩
    unfold runWith.ended
    cases hspent : s.exhausted <;> cases hdeep : s.tooDeep <;>
      simp [State.halted, State.counters, hspent, hdeep]
  | fault f => cases h

/-- What a run that has passed no limit comes to does not depend on the limits. -/
theorem closeRun_of_live (m m' : Machine) {o : Outcome} {s : State} (h : o.state? = some s)
    (hlive : s.halted = false) : m.closeRun o = m'.closeRun o := by
  obtain ⟨hspent, hdeep⟩ : s.exhausted = false ∧ s.tooDeep = false := by
    simpa [State.halted] using hlive
  cases o with
  | matched stop s' =>
    cases h
    simp [closeRun, runWith.ended, hspent, hdeep]
  | failed s' =>
    cases h
    simp [closeRun, runWith.ended, hspent, hdeep]
  | fault f => cases h

/-- Two runs of one root, of which the second has looser limits: they end in the same way, with
no limit passed; or the first has passed its step limit, and the second has taken more steps
than that; or the first has gone too deep, and so has the second if it has the same depth
limit. -/
theorem run_follows (hsteps : IsTighter steps steps') (hdepth : IsTighter depth depth')
    {fuel fuel' : Nat} {root : Term} {r r' : Run}
    (hrun : (m.within steps depth).runWith fuel root {} = .ok r)
    (hrun' : (m.within steps' depth').runWith fuel' root {} = .ok r') :
    (r = r' ∧ (∀ n, steps = some n → r.state.steps ≤ n) ∧ ∀ d, r.result ≠ .error (.depth d)) ∨
      (∃ n, steps = some n ∧ r.result = .error (.budget (n + 1)) ∧ n < r'.state.steps) ∨
      (∃ d, depth = some d ∧ r.result = .error (.depth d) ∧
        (depth = depth' → r'.state.tooDeep = true)) := by
  rw [runWith_eq] at hrun hrun'
  obtain ⟨s, hs, hstate, hbudget, htooDeep, hnot⟩ := closeRun_eq_ok hrun
  obtain ⟨s', hs', hstate', -⟩ := closeRun_eq_ok hrun'
  have hsame : r'.state.steps = s'.steps ∧ r'.state.tooDeep = s'.tooDeep :=
    ⟨congrArg Counters.steps hstate', congrArg Counters.tooDeep hstate'⟩
  have hcounts := (eval_counts (m.within steps depth) fuel root {} {}).of_state? hs
  have hwithin : Counters.Within (m.within steps depth).limits (State.counters {}) :=
    fun _ _ => Nat.zero_le _
  rcases eval_follows hsteps hdepth fuel fuel' root {} {} rfl s s' hs hs' with
    ⟨heq, hlive⟩ | htripped
  · left
    refine ⟨?_, fun n hn => ?_, hnot hlive⟩
    · rw [closeRun_of_live _ (m.within steps' depth') hs hlive] at hrun
      exact Except.ok.inj (hrun.symm.trans ((congrArg _ heq).trans hrun'))
    · rw [show r.state.steps = s.steps from congrArg Counters.steps hstate]
      exact hcounts.within hlive hwithin n hn
  · right
    cases hspent : s.exhausted with
    | true =>
      left
      obtain ⟨n, hn, hsteps⟩ := hcounts.spent rfl hwithin hspent
      have hsteps : s.steps = n + 1 := hsteps
      refine ⟨n, hn, by rw [hbudget hspent, hsteps], ?_⟩
      rw [hsame.1]
      exact htripped.spent hspent n hn
    | false =>
      right
      -- a limit has been passed, and it was not the one on steps
      have hdeep : s.tooDeep = true := by simpa [State.halted, hspent] using htripped.halted
      obtain ⟨d, hd⟩ := Option.isSome_iff_exists.mp (hcounts.deep rfl hdeep).2
      have hd : depth = some d := hd
      refine ⟨d, hd, ?_, fun heq => hsame.2.trans (htripped.deep hdeep heq)⟩
      rw [htooDeep hspent hdeep, within, hd]
      rfl

/-- A run that has no limits passes none. -/
theorem live_of_run {fuel : Nat} {root : Term} {r : Run}
    (hrun : (m.within none none).runWith fuel root {} = .ok r) : r.state.halted = false := by
  rw [runWith_eq] at hrun
  obtain ⟨s, hs, hstate, -⟩ := closeRun_eq_ok hrun
  have hcounts := (eval_counts (m.within none none) fuel root {} {}).of_state? hs
  have hexhausted : s.exhausted = false := eq_false_of_ne_true fun hspent => by
    obtain ⟨n, hn, -⟩ := hcounts.spent rfl (fun _ _ => Nat.zero_le _) hspent
    cases hn
  have htooDeep : s.tooDeep = false := eq_false_of_ne_true fun hdeep => by
    have hsome := (hcounts.deep rfl hdeep).2
    cases hsome
  have hlive : s.halted = false := by simp [State.halted, hexhausted, htooDeep]
  exact (congrArg Counters.halted hstate).trans hlive

/-- The limits of the machine make no difference to what its terms may be. -/
theorem Allows.within {bounded : Prop} {t : Term} (h : m.Allows bounded t)
    (steps depth : Option Nat) : (m.within steps depth).Allows bounded t := ⟨h.short, h.steady⟩

/-- **Limits that a run stays within are not felt.**  If a run has ended, and passed no limit,
it ends in the same way with more fuel, with looser limits, and with a limit that is not below
the steps that it took. -/
theorem run_persists {fuel fuel' : Nat} (hle : fuel' ≤ fuel) {root : Term} {r : Run}
    (hrun : (m.within steps' depth').runWith fuel' root {} = .ok r)
    (hlive : r.state.halted = false) (hspares : Spares steps depth steps' depth' 0 r.state) :
    (m.within steps depth).runWith fuel root {} = .ok r := by
  rw [runWith_eq] at hrun ⊢
  obtain ⟨s, hs, hstate, -⟩ := closeRun_eq_ok hrun
  have hsteps : s.steps = r.state.steps := congrArg Counters.steps hstate.symm
  have hlive' : s.halted = false := (congrArg Counters.halted hstate.symm).trans hlive
  have hsame := eval_persists m steps depth steps' depth' 0 fuel' fuel hle root {} {}
    (Nat.zero_le _) s hs hlive' (hspares.before hsteps.le)
  rw [closeRun_of_live _ (m.within steps depth) hs hlive'] at hrun
  exact (congrArg _ hsame).trans hrun

section

variable {fuel : Nat} {root : Term} {r : Run}
  (hrun : (m.within none none).runWith fuel root {} = .ok r)
include hrun

/-- A step limit: the same run, or the budget passed by one step. -/
theorem run_of_steps (n : Nat) :
    (r.state.steps ≤ n → (m.within (some n) none).runWith fuel root {} = .ok r) ∧
      ∀ k r', (m.within (some n) none).runWith k root {} = .ok r' →
        if r.state.steps ≤ n then r' = r else r'.result = .error (.budget (n + 1)) := by
  refine ⟨fun hle => run_persists (Nat.le_refl _) hrun (live_of_run hrun)
    ⟨.inr fun n' hn => hle.trans (Option.some.inj hn).le, .inl (isTighter_refl _)⟩,
    fun k r' hrun' => ?_⟩
  rcases run_follows (isTighter_none _) (isTighter_none _) hrun' hrun with
    ⟨rfl, hle, -⟩ | ⟨n', hn, hresult, hlt⟩ | ⟨d, ⟨⟩, -⟩
  · rw [if_pos (hle n rfl)]
  · cases hn
    rw [if_neg (Nat.not_le.mpr hlt)]
    exact hresult

/-- A depth limit as large as the steps is not passed, so there is a least one that is not. -/
theorem exists_least_depth : ∃ d₀ ≤ r.state.steps,
    (∃ k₀, ∀ d, d₀ ≤ d → (m.within none (some d)).runWith k₀ root {} = .ok r) ∧
      ∀ d < d₀, ∀ k, (m.within none (some d)).runWith k root {} ≠ .ok r := by
  classical
  have hsteps : (m.within none (some r.state.steps)).runWith fuel root {} = .ok r :=
    run_persists (Nat.le_refl _) hrun (live_of_run hrun)
      ⟨.inl (isTighter_refl _), .inr fun d hd => (Option.some.inj hd).le⟩
  have hsome : ∃ d, ∃ k, (m.within none (some d)).runWith k root {} = .ok r := ⟨_, fuel, hsteps⟩
  obtain ⟨k₀, hleast⟩ := Nat.find_spec hsome
  exact ⟨Nat.find hsome, Nat.find_min' hsome ⟨fuel, hsteps⟩,
    ⟨k₀, fun d hle => run_persists (Nat.le_refl _) hleast (live_of_run hrun)
      ⟨.inl (isTighter_refl _), .inl (isTighter_some hle)⟩⟩,
    fun d hlt k hrun => Nat.find_min hsome hlt ⟨k, hrun⟩⟩

variable {d₀ k₀ : Nat}
  (hdepth : ∀ d, d₀ ≤ d → (m.within none (some d)).runWith k₀ root {} = .ok r)
  (hless : ∀ d < d₀, ∀ k, (m.within none (some d)).runWith k root {} ≠ .ok r)
include hdepth hless

/-- A depth limit: the same run, or too deep. -/
theorem run_of_depth {d k : Nat} {r' : Run}
    (hrun' : (m.within none (some d)).runWith k root {} = .ok r') :
    if d₀ ≤ d then r' = r else r'.result = .error (.depth d) := by
  split
  · next hle =>
    rcases run_follows (isTighter_refl _) (isTighter_refl _) hrun' (hdepth d hle) with
      ⟨heq, -⟩ | ⟨n, ⟨⟩, -⟩ | ⟨d', -, -, htooDeep⟩
    · exact heq
    · have hlive := live_of_run hrun
      simp [State.halted, htooDeep rfl] at hlive
  · next hnot =>
    rcases run_follows (isTighter_none _) (isTighter_none _) hrun' hrun with
      ⟨rfl, -⟩ | ⟨n, ⟨⟩, -⟩ | ⟨d', hd', hresult, -⟩
    · exact absurd hrun' (hless d (Nat.not_le.mp hnot) k)
    · cases hd'
      exact hresult

/-- Both limits: the same run, or what one of them says that the run would have passed. -/
theorem run_of_both {n d k : Nat} {r' : Run}
    (hrun' : (m.within (some n) (some d)).runWith k root {} = .ok r') :
    if r.state.steps ≤ n ∧ d₀ ≤ d then r' = r
    else n < r.state.steps ∧ r'.result = .error (.budget (n + 1)) ∨
      d < d₀ ∧ r'.result = .error (.depth d) := by
  have hlive := live_of_run hrun
  rcases run_follows (isTighter_none _) (isTighter_none _) hrun' hrun with
    ⟨rfl, hle, -⟩ | ⟨n', hn, hresult, hlt⟩ | ⟨d', hd', hresult, -⟩
  · -- with the depth limit alone the run is the same, so the limit is not below the least one
    have hsame : (m.within none (some d)).runWith k root {} = .ok r' :=
      run_persists (Nat.le_refl _) hrun' hlive ⟨.inl (isTighter_none _), .inl (isTighter_refl _)⟩
    have hd : d₀ ≤ d := Nat.le_of_not_lt fun hlt => hless d hlt k hsame
    rw [if_pos ⟨hle n rfl, hd⟩]
  · cases hn
    rw [if_neg fun h => Nat.not_le.mpr hlt h.1]
    exact .inl ⟨hlt, hresult⟩
  · cases hd'
    -- from the least depth on, the run with the depth limit alone would be too deep as well
    have hd : d < d₀ := by
      refine Nat.lt_of_not_le fun hle => ?_
      rcases run_follows (isTighter_none _) (isTighter_refl _) hrun' (hdepth d hle) with
        ⟨rfl, -, hnot⟩ | ⟨n', -, hbudget, -⟩ | ⟨d', -, -, htooDeep⟩
      · exact hnot d hresult
      · rw [hresult] at hbudget
        cases hbudget
      · simp [State.halted, htooDeep rfl] at hlive
    rw [if_neg fun h => Nat.not_le.mpr hd h.2]
    exact .inr ⟨hd, hresult⟩

end

/-- **Limits only put an end to a run.**  Let a run without limits end.  With a step limit that is
not below the steps of that run there is a run that ends in the same way and the same state, and
no other; with a smaller one, a run that ends does so with the budget passed by one step.  With
depth limits it is the same from some limit on, which is no more than the steps of the run: a run
with a smaller one is too deep.  With both limits, the run without them is there if each is large
enough, and otherwise a run ends in one of the two other ways.  If the grammar is accepted and
steady, runs end with any limits. -/
theorem limits_only_stop {m : Machine} {fuel : Nat} {root : Term} {r : Run}
    (hrun : (m.within none none).runWith fuel root {} = .ok r) :
    (∀ n, (r.state.steps ≤ n → (m.within (some n) none).runWith fuel root {} = .ok r) ∧
      ∀ k r', (m.within (some n) none).runWith k root {} = .ok r' →
        if r.state.steps ≤ n then r' = r else r'.result = .error (.budget (n + 1))) ∧
    (∃ d₀ ≤ r.state.steps, ∃ k₀,
      (∀ d, (d₀ ≤ d → (m.within none (some d)).runWith k₀ root {} = .ok r) ∧
        ∀ k r', (m.within none (some d)).runWith k root {} = .ok r' →
          if d₀ ≤ d then r' = r else r'.result = .error (.depth d)) ∧
      ∀ n d, (r.state.steps ≤ n → d₀ ≤ d →
          (m.within (some n) (some d)).runWith k₀ root {} = .ok r) ∧
        ∀ k r', (m.within (some n) (some d)).runWith k root {} = .ok r' →
          if r.state.steps ≤ n ∧ d₀ ≤ d then r' = r
          else n < r.state.steps ∧ r'.result = .error (.budget (n + 1)) ∨
            d < d₀ ∧ r'.result = .error (.depth d)) ∧
    (∀ rules, Grammar.ofRules rules = .ok m.grammar →
      (∀ rule ∈ m.grammar.rules, rule.body.Every (m.Allows True)) →
      root.Every (m.Allows True) →
      ∀ steps depth, ∃ r', (m.within steps depth).run root {} = .ok r') := by
  obtain ⟨d₀, hd₀, ⟨k₀, hdepth⟩, hless⟩ := exists_least_depth hrun
  refine ⟨run_of_steps hrun, ⟨d₀, hd₀, k₀,
    fun d => ⟨hdepth d, fun k r' => run_of_depth hrun hdepth hless⟩,
    fun n d => ⟨fun hle hle' => ?_, fun k r' => run_of_both hrun hdepth hless⟩⟩,
    fun rules hg hallows hroot steps depth => ?_⟩
  · exact run_persists (Nat.le_refl _) (hdepth d hle') (live_of_run hrun)
      ⟨.inr fun n' hn => hle.trans (Option.some.inj hn).le, .inl (isTighter_refl _)⟩
  · exact exists_run_of_every (m := m.within steps depth) hg
      (fun rule hrule t ht => (hallows rule hrule t ht).within steps depth)
      fun t ht => (hroot t ht).within steps depth

/-- The conditions can be met: two pairs of parentheses take three steps, three deep. -/
theorem limits_only_stop_nest :
    let m : Machine := ⟨nest, #[⟨.lParen, "("⟩, ⟨.lParen, "("⟩, ⟨.rParen, ")"⟩, ⟨.rParen, ")"⟩,
      ⟨.eof, ""⟩], {}⟩
    ∃ r, (m.within none none).runWith 12 (.ref (.linked 0)) {} = .ok r ∧ r.state.steps = 3 ∧
      (m.within (some 3) none).runWith 12 (.ref (.linked 0)) {} = .ok r ∧
      (∀ k r', (m.within (some 3) none).runWith k (.ref (.linked 0)) {} = .ok r' → r' = r) ∧
      (∀ k r', (m.within (some 2) none).runWith k (.ref (.linked 0)) {} = .ok r' →
        r'.result = .error (.budget 3)) ∧
      (∃ k, (m.within (some 3) (some 3)).runWith k (.ref (.linked 0)) {} = .ok r) ∧
      ∀ steps depth, ∃ r', (m.within steps depth).run (.ref (.linked 0)) {} = .ok r' := by
  intro m
  have hsome : ((m.within none none).runWith 12 (.ref (.linked 0)) {}).toOption.map
      (·.state.steps) = some 3 := by cbv
  obtain ⟨r, hr, hsteps⟩ := Option.map_eq_some_iff.mp hsome
  have hrun : (m.within none none).runWith 12 (.ref (.linked 0)) {} = .ok r := by
    cases h : (m.within none none).runWith 12 (.ref (.linked 0)) {} <;>
      simp_all [Except.toOption]
  obtain ⟨hstep, ⟨d₀, hd₀, k₀, -, hboth⟩, hends⟩ := limits_only_stop hrun
  have hrules : Grammar.ofRules nest.rules.toList = .ok nest := by cbv
  have hshort : ∀ t ∈ m.tokens, t.text.utf8ByteSize ≤ 255 := by decide
  have hsteady : nest.rules.toList.all (fun rule => rule.body.parts.all nest.isSteady) = true := by
    decide +kernel
  refine ⟨r, hrun, hsteps, (hstep 3).1 hsteps.le, fun k r' h => ?_, fun k r' h => ?_,
    ⟨k₀, (hboth 3 3).1 hsteps.le (hsteps ▸ hd₀)⟩, hends _ hrules
    (fun rule hrule => every_allows_of_steady hshort
      (List.all_eq_true.mp hsteady rule (Array.mem_toList_iff.mpr hrule)))
    (every_allows_of_steady hshort (by decide +kernel))⟩
  · simpa [hsteps] using (hstep 3).2 k r' h
  · simpa [hsteps] using (hstep 2).2 k r' h

/-! ## A limited run that does not end -/

/-- Reads all that is left of a text, at each of its tokens, and then fails. -/
def vainTail : Term :=
  .seq [.star (.seq [.ahead (.star .any), .any]), .notAhead .empty]

/-- A name, and behind it tails that do not match as long as rules do. -/
def heldRules : List Rule :=
  [⟨"a", none, none, none, .fold (.token .ident)
    [(.binExpr, vainTail), (.binExpr, .notAhead (.rule "e"))] none⟩,
   ⟨"e", none, none, none, .empty⟩]

/-- The first rule of these, with the second by number. -/
def heldFold : Term :=
  .fold (.token .ident) [(.binExpr, vainTail), (.binExpr, .notAhead (.ref (.linked 1)))] none

/-- The rules by number, and a single name to read. -/
def heldMachine : Machine where
  grammar := ⟨#[⟨"a", none, none, none, heldFold⟩, ⟨"e", none, none, none, .empty⟩]⟩
  tokens := #[⟨.ident, "x"⟩, ⟨.eof, ""⟩]

/-- The machine with a limit of one step. -/
abbrev heldOnce : Machine := heldMachine.within (some 1) none

/-- A term that ends in vain does not match. -/
theorem vainTail_ne_matched (m : Machine) (fuel : Nat) (pos stop : Pos) (s s' : State) :
    m.eval fuel vainTail pos s ≠ .matched stop s' := by
  have hvain : ∀ fuel pos s, m.eval fuel (.notAhead .empty) pos s = .fault .outOfFuel ∨
      ∃ s', m.eval fuel (.notAhead .empty) pos s = .failed s' := by
    rintro (_ | _ | fuel) pos s
    · exact .inl rfl
    · exact .inl rfl
    · exact .inr ⟨_, rfl⟩
  cases fuel with
  | zero => rintro ⟨⟩
  | succ fuel =>
    rw [eval]
    change seqFrom (m.eval fuel) s.out.size [_, .notAhead .empty] pos s ≠ _
    rw [seqFrom_cons]
    cases m.eval fuel (.star (.seq [.ahead (.star .any), .any])) pos s with
    | matched mid s₁ =>
      simp only [Outcome.resume, seqFrom_cons]
      rcases hvain fuel mid s₁ with hfault | ⟨s₂, hfailed⟩
      · simp [hfault]
      · simp [hfailed]
    | failed s₁ => rintro ⟨⟩
    | fault f => rintro ⟨⟩

/-- After the first step no rule matches any more, so the second tail does, and reads nothing. -/
theorem eval_notAhead_held (fuel : Nat) (pos : Pos) (s : State) (hs : 1 ≤ s.steps) :
    (∃ f, heldOnce.eval fuel (.notAhead (.ref (.linked 1))) pos s = .fault f) ∨
      ∃ s', heldOnce.eval fuel (.notAhead (.ref (.linked 1))) pos s = .matched pos s' := by
  rcases fuel with _ | _ | fuel
  · exact .inl ⟨_, rfl⟩
  · exact .inl ⟨_, rfl⟩
  · right
    have hfailed : ∃ s', heldOnce.eval (fuel + 1) (.ref (.linked 1)) pos (muted s) =
        .failed s' := by
      rw [eval, step_ref heldOnce _ fuel pos (muted s) (r := .linked 1) rfl rfl]
      cases hlive : (muted s).halted with
      | true => exact ⟨_, applyRule_of_halted _ _ _ _ _ _ hlive⟩
      | false =>
        have hspent : (some 1).any (· < (muted s).steps + 1) = true :=
          decide_eq_true (Nat.lt_succ_of_le hs)
        rw [applyRule_within heldMachine _ (some 1) none 1 _ pos (muted s) hlive, if_pos hspent]
        exact ⟨_, rfl⟩
    obtain ⟨s', hs'⟩ := hfailed
    rw [eval, step_notAhead, hs']
    exact ⟨_, rfl⟩

/-- The fold of the first rule goes round and round. -/
theorem foldFrom_held (fuel mark rounds : Nat) : ∀ folded pos s, 1 ≤ s.steps →
    ∃ f, foldFrom (heldOnce.eval fuel)
      [(.binExpr, vainTail), (.binExpr, .notAhead (.ref (.linked 1)))] none mark rounds folded
      pos s = .fault f := by
  induction rounds with
  | zero => exact fun _ _ _ _ => ⟨_, rfl⟩
  | succ rounds ih =>
    intro folded pos s hs
    rw [foldFrom_succ, Option.any_none, if_neg Bool.false_ne_true, tailFrom_cons]
    have hvain := vainTail_ne_matched heldOnce fuel pos
    have hcounts := eval_counts heldOnce fuel vainTail pos s
    cases ho : heldOnce.eval fuel vainTail pos s with
    | matched stop s₁ => exact absurd ho (hvain stop s s₁)
    | failed s₁ =>
      rw [ho] at hcounts
      have hs₁ : 1 ≤ s₁.steps := hs.trans hcounts.steps_le
      simp only [Outcome.resume, tailFrom_cons]
      have hcounts₂ := eval_counts heldOnce fuel (.notAhead (.ref (.linked 1))) pos
        (s₁.truncate s.out.size)
      rcases eval_notAhead_held fuel pos (s₁.truncate s.out.size) hs₁ with ⟨f, hf⟩ | ⟨s₂, hs₂⟩
      · exact ⟨f, by rw [hf]⟩
      · rw [hs₂] at hcounts₂ ⊢
        exact ih (folded + 1) pos (s₂.wrap mark .binExpr) (hs₁.trans hcounts₂.steps_le)
    | fault f => exact ⟨f, rfl⟩

/-- So the body of the first rule does not come to an end. -/
theorem eval_heldFold (fuel : Nat) {s : State} (hs : s.steps = 1) :
    ∃ f, heldOnce.eval fuel heldFold {} s = .fault f := by
  rcases fuel with _ | _ | fuel
  · exact ⟨_, rfl⟩
  · exact ⟨_, rfl⟩
  · have hname : heldOnce.eval (fuel + 1) (.token .ident) {} s =
        .matched ⟨1, 0⟩ (s.push (.token 0 .ident none)) := rfl
    rw [eval, heldFold, step_fold, hname]
    exact foldFrom_held (fuel + 1) _ _ 0 ⟨1, 0⟩ _ (Nat.le_of_eq hs.symm)

/-- **A budget need not end a run.**  The grammar of these two rules is accepted, and the run of
the first over a single name ends in two steps; but with a limit of one step, it does not. -/
theorem budget_runs_on : Grammar.ofRules heldRules = .ok heldMachine.grammar ∧
    (∃ r, (heldMachine.within none none).runWith 12 (.rule "a") {} = .ok r ∧
      r.state.steps = 2) ∧
    ∀ fuel r, heldOnce.runWith fuel (.rule "a") {} ≠ .ok r := by
  refine ⟨by cbv, ?_, fun fuel r => ?_⟩
  · have hsome : ((heldMachine.within none none).runWith 12 (.rule "a") {}).toOption.map
        (·.state.steps) = some 2 := by cbv
    obtain ⟨r, hr, hsteps⟩ := Option.map_eq_some_iff.mp hsome
    refine ⟨r, ?_, hsteps⟩
    cases h : (heldMachine.within none none).runWith 12 (.rule "a") {} <;>
      simp_all [Except.toOption]
  · have hid : heldOnce.grammar.resolve? (.named "a") = some 0 := by cbv
    suffices h : ∃ f, heldOnce.eval fuel (.rule "a") {} {} = .fault f by
      obtain ⟨f, hf⟩ := h
      rw [runWith_eq, show ({ ({} : State) with out := #[] } : State) = {} from rfl, hf]
      rintro ⟨⟩
    cases fuel with
    | zero => exact ⟨_, rfl⟩
    | succ fuel =>
      have hrule : heldOnce.grammar.rules[0]? = some ⟨"a", none, none, none, heldFold⟩ := rfl
      rw [eval, Term.rule, step_ref heldOnce _ fuel {} {} hid hrule,
        applyRule_within heldMachine _ (some 1) none 0 _ {} {} rfl, if_neg (by decide),
        if_neg (by decide)]
      have hnone : (stepped {}).memo.get? ⟨0, {}, {}⟩ = none := by simp [stepped]
      simp only [consult, hnone, enterRule_eq]
      obtain ⟨f, hf⟩ := eval_heldFold fuel
        (s := entering {} (stepped {}) ⟨"a", none, none, none, heldFold⟩ ⟨0, {}, {}⟩) rfl
      rw [hf]
      exact ⟨f, rfl⟩

end Machine
end Peg
end Packrat
