/-
# Steps and limits

An evaluation counts the rules that it applies, and notes when a limit has been passed.  No
other part of it looks at these counters or changes them, so what a piece of work does to them
is told by a relation between the counters before and after it (`Counters.Leads`):

| counters before | after |
| --- | --- |
| a limit has been passed | the same |
| none has | as many steps or more; no more than are allowed, or just one more and a halt |

`Machine.eval_counts` says so of every evaluation, and `Machine.runWith_counts` of whole runs.
-/

import Packrat.Proofs.Peg.Lasting

namespace Packrat
namespace Peg

/-- How many rules have been applied, and which limits have been passed. -/
structure Counters where
  steps : Nat
  exhausted : Bool
  tooDeep : Bool

/-- The counters of a state. -/
def State.counters (s : State) : Counters := ⟨s.steps, s.exhausted, s.tooDeep⟩

namespace Counters

/-- A limit has been passed. -/
def halted (c : Counters) : Bool := c.exhausted || c.tooDeep

/-- No more steps have been taken than are allowed. -/
def Within (l : Limits) (c : Counters) : Prop := ∀ n, l.maxSteps = some n → c.steps ≤ n

/-- Work under some limits may lead from the first counters to the second. -/
structure Leads (l : Limits) (c c' : Counters) : Prop where
  steps_le : c.steps ≤ c'.steps
  halted : c.halted = true → c' = c
  spent : c.halted = false → c.Within l → c'.exhausted = true →
    ∃ n, l.maxSteps = some n ∧ c'.steps = n + 1
  deep : c.halted = false → c'.tooDeep = true → c'.exhausted = false ∧ l.maxDepth.isSome
  within : c'.halted = false → c.Within l → c'.Within l

variable {l : Limits} {c c' c'' : Counters}

theorem Leads.refl (l : Limits) (c : Counters) : c.Leads l c where
  steps_le := Nat.le_refl _
  halted _ := rfl
  spent hlive _ hspent := by simp [Counters.halted, hspent] at hlive
  deep hlive hdeep := by simp [Counters.halted, hdeep] at hlive
  within _ hle := hle

theorem Leads.trans (h : c.Leads l c') (h' : c'.Leads l c'') : c.Leads l c'' where
  steps_le := Nat.le_trans h.steps_le h'.steps_le
  halted hhalted := by
    have heq := h.halted hhalted
    rw [h'.halted (heq ▸ hhalted), heq]
  spent hlive hwithin hspent := by
    cases hmid : c'.halted with
    | true =>
      rw [h'.halted hmid] at hspent ⊢
      exact h.spent hlive hwithin hspent
    | false => exact h'.spent hmid (h.within hmid hwithin) hspent
  deep hlive hdeep := by
    cases hmid : c'.halted with
    | true =>
      rw [h'.halted hmid] at hdeep ⊢
      exact h.deep hlive hdeep
    | false => exact h'.deep hmid hdeep
  within hlive hwithin := by
    cases hmid : c'.halted with
    | true =>
      rw [h'.halted hmid, hmid] at hlive
      cases hlive
    | false => exact h'.within hlive (h.within hmid hwithin)

/-- One more rule is applied, and no limit is passed. -/
theorem Leads.step (hspent : l.maxSteps.any (· < c.steps + 1) = false) (hlive : c.halted = false) :
    c.Leads l { c with steps := c.steps + 1 } where
  steps_le := Nat.le_succ _
  halted hhalted := by simp [hlive] at hhalted
  spent _ _ h := by simp_all [Counters.halted]
  deep _ h := by simp_all [Counters.halted]
  within _ _ n hn := by
    rw [hn, Option.any_some, decide_eq_false_iff_not] at hspent
    exact Nat.le_of_not_lt hspent

/-- One rule more is applied than may be. -/
theorem Leads.spend (hspent : l.maxSteps.any (· < c.steps + 1) = true) (hlive : c.halted = false) :
    c.Leads l { c with steps := c.steps + 1, exhausted := true } where
  steps_le := Nat.le_succ _
  halted hhalted := by simp [hlive] at hhalted
  spent _ hwithin _ := by
    obtain ⟨n, hn, hlt⟩ := (Option.any_eq_true ..).mp hspent
    rw [decide_eq_true_iff] at hlt
    have hle := hwithin n hn
    have heq : c.steps + 1 = n + 1 := by omega
    exact ⟨n, hn, heq⟩
  deep _ h := by simp_all [Counters.halted]
  within h := by simp [Counters.halted] at h

/-- A rule is applied deeper than it may be. -/
theorem Leads.sink (hdeep : l.maxDepth.isSome) (hlive : c.halted = false) :
    c.Leads l { c with steps := c.steps + 1, tooDeep := true } where
  steps_le := Nat.le_succ _
  halted hhalted := by simp [hlive] at hhalted
  spent _ _ h := by simp_all [Counters.halted]
  deep _ _ := ⟨by simp_all [Counters.halted], hdeep⟩
  within h := by simp [Counters.halted] at h

end Counters

/-- What is told by the table and the counters of a state lasts. -/
theorem State.IsLasting.of_told {K : State → Prop}
    (hK : ∀ s s' : State, s'.memo = s.memo → s'.counters = s.counters → K s → K s') :
    State.IsLasting K where
  output {s} hs _ := hK s _ rfl rfl hs
  expect {s} hs pos what := by
    obtain ⟨failure, h⟩ := s.notes_expect pos what
    rw [h]
    exact hK s _ rfl rfl hs
  flags {s} hs _ := hK s _ rfl rfl hs
  suppress {s} hs _ := hK s _ rfl rfl hs

theorem State.counters_expectLabel (s : State) (pos : Pos) (before : Failure) (label : String) :
    (s.expectLabel pos before label).counters = s.counters := by
  obtain ⟨failure, h⟩ := s.notes_expectLabel pos before label
  rw [h]
  rfl

namespace Machine

theorem counters_leavingMatched (s s' : State) (rule : Rule) (key : MemoKey) (stop : Pos) :
    (leavingMatched s rule key stop s').counters = s'.counters := by
  unfold leavingMatched
  cases rule.kind <;> rfl

theorem counters_leavingFailed (pos : Pos) (s s' : State) (rule : Rule) (key : MemoKey) :
    (leavingFailed pos s rule key s').counters = s'.counters := by
  unfold leavingFailed
  cases rule.label with
  | none => rfl
  | some label =>
    exact State.counters_expectLabel ((leaving s s').truncate s.out.size) pos s.failure label

variable (m : Machine)

/-- Work that began with the counters of state `s` has changed them as it may. -/
def CountsFrom (s : State) (o : Outcome) : Prop :=
  o.Leaves fun s' => s.counters.Leads m.limits s'.counters

variable {m} {eval : Evaluator}

/-- Work that went on after other work. -/
theorem CountsFrom.after {s s' : State} {o : Outcome} (h : m.CountsFrom s' o)
    (hs : s.counters.Leads m.limits s'.counters) : m.CountsFrom s o := h.imp fun _ => hs.trans

/-- Whatever terms do to a state, the counters stay. -/
theorem leads_isLasting (l : Limits) (c : Counters) :
    State.IsLasting fun s => c.Leads l s.counters :=
  .of_told fun _ _ _ hcounters hs => hcounters ▸ hs

section

variable (heval : ∀ t pos s, m.CountsFrom s (eval t pos s))
include heval

theorem preserves_leads (c : Counters) :
    Preserves (fun s => c.Leads m.limits s.counters) eval :=
  fun t pos s hs => Outcome.Leaves.imp (heval t pos s) fun _ => Counters.Leads.trans hs

/-! ## Loops -/

theorem seqFrom_counts (mark : Nat) (ts : List Term) (pos : Pos) (s : State) :
    m.CountsFrom s (seqFrom eval mark ts pos s) :=
  seqFrom_preserves (leads_isLasting ..) (preserves_leads heval _) mark ts pos s (.refl _ _)

theorem choiceFrom_counts (mark : Nat) (pos : Pos) (ts : List Term) (s : State) :
    m.CountsFrom s (choiceFrom eval mark pos ts s) :=
  choiceFrom_preserves (leads_isLasting ..) (preserves_leads heval _) mark pos ts s (.refl _ _)

theorem repeatFrom_counts (t : Term) (fuel : Nat) (pos : Pos) (s : State) :
    m.CountsFrom s (repeatFrom eval t fuel pos s) :=
  repeatFrom_preserves (leads_isLasting ..) (preserves_leads heval _) t fuel pos s (.refl _ _)

theorem tailFrom_counts (mark : Nat) (pos : Pos) (tails : List (Kind × Term)) (s : State) :
    m.CountsFrom s (tailFrom eval mark pos tails s) :=
  tailFrom_preserves (leads_isLasting ..) (preserves_leads heval _) mark pos tails s (.refl _ _)

theorem foldFrom_counts (tails : List (Kind × Term)) (max : Option Nat)
    (mark fuel folded : Nat) (pos : Pos) (s : State) :
    m.CountsFrom s (foldFrom eval tails max mark fuel folded pos s) :=
  foldFrom_preserves (leads_isLasting ..) (preserves_leads heval _) tails max mark fuel folded pos
    s (.refl _ _)

/-! ## Rules -/

theorem enterRule_counts (rule : Rule) (key : MemoKey) (pos : Pos) (s : State) :
    m.CountsFrom s (enterRule eval rule key pos s) := by
  rw [enterRule_eq]
  refine (heval rule.body pos (entering pos s rule key)).resume (fun stop s' h => ?_) fun s' h => ?_
  · change s.counters.Leads m.limits (leavingMatched s rule key stop s').counters
    rwa [counters_leavingMatched]
  · change s.counters.Leads m.limits (leavingFailed pos s rule key s').counters
    rwa [counters_leavingFailed]

theorem consult_counts (reuse : Bool) (rule : Rule) (key : MemoKey) (pos : Pos) (s : State) :
    m.CountsFrom s (consult reuse eval rule key pos s) := by
  unfold consult
  split
  · trivial
  · exact .refl _ _
  · exact .refl _ _
  · exact enterRule_counts heval rule key pos s

theorem applyRule_counts (id : Nat) (rule : Rule) (pos : Pos) (s : State) :
    m.CountsFrom s (m.applyRule eval id rule pos s) := by
  cases hlive : s.halted with
  | true =>
    rw [applyRule_of_halted _ _ _ _ _ _ hlive]
    exact .refl _ _
  | false =>
    rw [applyRule_eq _ _ _ _ _ _ hlive]
    split
    · next hspent => exact .spend hspent hlive
    · next hspent =>
      split
      · next hdeep =>
        obtain ⟨n, hn, -⟩ := (Option.any_eq_true ..).mp hdeep
        exact .sink (by simp [hn]) hlive
      · exact (consult_counts heval _ rule _ pos (stepped s)).after
          (.step (eq_false_of_ne_true hspent) hlive)

/-- Applying a rule is a step. -/
theorem applyRule_step (id : Nat) (rule : Rule) (pos : Pos) (s : State)
    (hlive : s.halted = false) :
    (m.applyRule eval id rule pos s).Leaves fun s' => s.steps < s'.steps := by
  rw [applyRule_eq _ _ _ _ _ _ hlive]
  split
  · exact Nat.lt_succ_self _
  · split
    · exact Nat.lt_succ_self _
    · exact (consult_counts heval _ rule _ pos (stepped s)).imp fun _ h => h.steps_le

end

/-- **Every evaluation counts** as it may, whatever fuel it is given. -/
theorem eval_counts (m : Machine) (fuel : Nat) (t : Term) (pos : Pos) (s : State) :
    m.CountsFrom s (m.eval fuel t pos s) := by
  refine eval_preserves (leads_isLasting m.limits) (fun fuel ih c id rule pos s _ hs => ?_) fuel
    s.counters t pos s (.refl _ _)
  exact (applyRule_counts (fun t pos s => ih s.counters t pos s (.refl _ _)) id rule pos s).imp
    fun _ => hs.trans

end Machine
end Peg
end Packrat
