/-
# The nullable rules are closed

Marking goes on until a round changes nothing, but in no more rounds than there are rules,
and one.  That is enough: a round only adds marks, so one that changes something marks a
rule more, and no more rules can be marked than there are.  What is left is a fixed point:
a rule whose body is nullable is nullable itself.
-/

import Mathlib.Data.Finset.Card
import Packrat.Proofs.Peg.Plainly

namespace Packrat
namespace Peg
namespace Grammar

variable (g : Grammar)

/-- The rules that are marked. -/
def marked (marks : Array Bool) : Finset Nat :=
  (Finset.range g.rules.size).filter fun id => marks.getD id false = true

@[simp] theorem size_markRound (marks : Array Bool) :
    (g.markRound marks).size = g.rules.size := by
  simp [markRound]

/-- What a round says of a rule. -/
theorem getD_markRound {id : Nat} {rule : Rule} (marks : Array Bool)
    (hrule : g.rules[id]? = some rule) :
    (g.markRound marks).getD id false =
      (marks.getD id false || rule.body.nullable (g.isMarked marks)) := by
  rw [Array.getD_eq_getD_getElem?, markRound, Array.getElem?_mapIdx, hrule]
  rfl

/-- A round keeps the marks that there are. -/
theorem marked_subset_markRound (marks : Array Bool) :
    g.marked marks ⊆ g.marked (g.markRound marks) := by
  intro id hid
  obtain ⟨hrange, hmark⟩ := Finset.mem_filter.mp hid
  have hlt := Finset.mem_range.mp hrange
  have hrule : g.rules[id]? = some g.rules[id] := Array.getElem?_eq_getElem hlt
  refine Finset.mem_filter.mpr ⟨hrange, ?_⟩
  rw [getD_markRound g marks hrule, hmark, Bool.true_or]

/-- The marks are known from the rules that are marked. -/
theorem eq_of_marked_eq {marks marks' : Array Bool} (hsize : marks.size = g.rules.size)
    (hsize' : marks'.size = g.rules.size) (h : g.marked marks = g.marked marks') :
    marks = marks' := by
  refine Array.ext (hsize.trans hsize'.symm) fun id hid hid' => ?_
  have hmem : id ∈ g.marked marks ↔ id ∈ g.marked marks' := by rw [h]
  have hrange : id ∈ Finset.range g.rules.size := Finset.mem_range.mpr (hsize ▸ hid)
  simp only [marked, Finset.mem_filter, hrange, true_and, Array.getD_eq_getD_getElem?,
    Array.getElem?_eq_getElem hid, Array.getElem?_eq_getElem hid', Option.getD_some] at hmem
  exact Bool.eq_iff_iff.mpr hmem

/-- A round that changes something marks a rule more. -/
theorem card_marked_lt {marks : Array Bool} (hsize : marks.size = g.rules.size)
    (hnext : g.markRound marks ≠ marks) :
    (g.marked marks).card < (g.marked (g.markRound marks)).card := by
  refine Finset.card_lt_card ⟨g.marked_subset_markRound marks, fun hback => hnext ?_⟩
  have heq := Finset.Subset.antisymm hback (g.marked_subset_markRound marks)
  exact g.eq_of_marked_eq (g.size_markRound marks) hsize heq

/-- With more rounds than rules that are not marked yet, marking ends in a fixed point. -/
theorem markRound_markRounds (n : Nat) : ∀ marks : Array Bool, marks.size = g.rules.size →
    g.rules.size < n + (g.marked marks).card →
    g.markRound (g.markRounds n marks) = g.markRounds n marks := by
  induction n with
  | zero =>
    intro marks _ hn
    have hcard : (g.marked marks).card ≤ (Finset.range g.rules.size).card :=
      Finset.card_le_card (Finset.filter_subset ..)
    rw [Finset.card_range] at hcard
    omega
  | succ n ih =>
    intro marks hsize hn
    simp only [markRounds]
    by_cases hnext : g.markRound marks = marks
    · rw [if_pos hnext, hnext]
    · rw [if_neg hnext]
      have hlt := g.card_marked_lt hsize hnext
      exact ih _ (g.size_markRound marks) (by omega)

/-- The nullable rules are a fixed point of marking. -/
theorem markRound_nullableRules : g.markRound g.nullableRules = g.nullableRules :=
  g.markRound_markRounds _ _ (by simp) (by omega)

variable {g}

/-- A reference is nullable when the rule with its number is. -/
theorem isNullable_eq_linked {r : RuleRef} {id : Nat} (hr : g.resolve? r = some id) :
    g.isNullable r = g.isNullable (.linked id) := by
  simp only [isNullable, isMarked, hr]
  rfl

/-- **The nullable rules are closed.**  A rule whose body is nullable is nullable. -/
theorem isNullable_of_body {id : Nat} {rule : Rule} (hrule : g.rules[id]? = some rule)
    (hbody : rule.body.nullable g.isNullable = true) : g.isNullable (.linked id) = true := by
  have hround := g.getD_markRound g.nullableRules hrule
  rw [g.markRound_nullableRules] at hround
  simp only [isNullable, isMarked, resolve?, Option.any_some]
  rw [hround]
  exact Bool.or_eq_true_iff.mpr (.inr hbody)

end Grammar
end Peg
end Packrat
