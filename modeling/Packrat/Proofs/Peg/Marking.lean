/-
# Marks as a number

The nullable rules of a grammar are found in rounds, and each round asks for the mark of every
reference.  In an array the kernel walks to a mark, in a number it reads off a digit.  So where it is
to find the nullable rules of a large grammar, the digits of a number stand for the marks
(`Grammar.Tells`): a round keeps it so (`Tells.round`), the rounds end together (`Tells.rounds`), and
the references that may match without reading are the same (`Grammar.isMarked_nullableRules`).
-/

import Mathlib.Data.Nat.Bitwise
import Packrat.Proofs.Peg.Nullable

namespace Packrat
namespace Peg.Grammar

variable (g : Grammar)

/-- A reference is nullable when the digit of its rule is 1. -/
def isMarkedIn (bits : Nat) (rule : RuleRef) : Bool :=
  (g.resolve? rule).any fun id => bits.testBit id

/-- The digits that a round gives to some rules, of which the first has number `id`. -/
def bitsFrom (bits : Nat) : Nat → List Rule → Nat
  | _, [] => 0
  | id, rule :: rules =>
    Nat.bit (bits.testBit id || rule.body.nullable (g.isMarkedIn bits))
      (bitsFrom bits (id + 1) rules)

/-- One round of marking. -/
def bitRound (bits : Nat) : Nat := g.bitsFrom bits 0 g.rules.toList

/-- Rounds of marking until nothing changes, at most `n`. -/
def bitRounds : Nat → Nat → Nat
  | 0, bits => bits
  | n + 1, bits =>
    let next := g.bitRound bits
    if next = bits then bits else bitRounds n next

/-- The digits of the nullable rules. -/
def nullableBits : Nat := g.bitRounds (g.rules.size + 1) 0

/-- The digits are the marks. -/
def Tells (marks : Array Bool) (bits : Nat) : Prop :=
  ∀ id, marks.getD id false = bits.testBit id

variable {g} {marks marks' : Array Bool} {bits bits' : Nat}

theorem Tells.isMarked (h : Tells marks bits) : g.isMarked marks = g.isMarkedIn bits := by
  funext rule
  simp only [Grammar.isMarked, isMarkedIn, h _]

theorem testBit_bitsFrom (rules : List Rule) : ∀ start id,
    (g.bitsFrom bits start rules).testBit id = rules[id]?.any fun rule =>
      bits.testBit (start + id) || rule.body.nullable (g.isMarkedIn bits) := by
  induction rules with
  | nil => simp [bitsFrom]
  | cons rule rules ih =>
    intro start id
    rw [bitsFrom]
    cases id with
    | zero => simp
    | succ id =>
      rw [Nat.testBit_bit_succ, ih, List.getElem?_cons_succ, Nat.add_right_comm]
      rfl

/-- **A round keeps digits and marks the same.** -/
theorem Tells.round (h : Tells marks bits) : Tells (g.markRound marks) (g.bitRound bits) := by
  intro id
  rw [bitRound, testBit_bitsFrom, Nat.zero_add, Array.getElem?_toList]
  cases hrule : g.rules[id]? with
  | none =>
    have hsize := g.size_markRound marks
    rw [Array.getElem?_eq_none_iff, ← hsize] at hrule
    rw [Array.getD_eq_getD_getElem?, Array.getElem?_eq_none hrule]
    rfl
  | some rule =>
    rw [g.getD_markRound marks hrule, h.isMarked, h id]
    rfl

/-- Marks are the same when their digits are. -/
theorem Tells.eq_iff (h : Tells marks bits) (h' : Tells marks' bits')
    (hsize : marks.size = marks'.size) : marks = marks' ↔ bits = bits' := by
  constructor
  · rintro rfl
    exact Nat.eq_of_testBit_eq fun id => (h id).symm.trans (h' id)
  · rintro rfl
    refine Array.ext hsize fun id hid hid' => ?_
    have hsame := (h id).trans (h' id).symm
    rwa [Array.getD_eq_getD_getElem?, Array.getD_eq_getD_getElem?, Array.getElem?_eq_getElem hid,
      Array.getElem?_eq_getElem hid'] at hsame

theorem Tells.rounds (n : Nat) : ∀ {marks bits}, marks.size = g.rules.size → Tells marks bits →
    Tells (g.markRounds n marks) (g.bitRounds n bits) := by
  induction n with
  | zero => exact fun _ h => h
  | succ n ih =>
    intro marks bits hsize h
    have hend := h.round.eq_iff h ((g.size_markRound marks).trans hsize.symm)
    simp only [markRounds, bitRounds, hend]
    split
    · exact h
    · exact ih (g.size_markRound marks) h.round

/-- **The nullable rules are told by their digits.** -/
theorem isMarked_nullableRules : g.isMarked g.nullableRules = g.isMarkedIn g.nullableBits := by
  refine Tells.isMarked (Tells.rounds _ (by simp) fun id => ?_)
  rw [Nat.zero_testBit, Array.getD_eq_getD_getElem?, Array.getElem?_replicate]
  split <;> rfl

theorem isNullable_eq : g.isNullable = g.isMarkedIn g.nullableBits := isMarked_nullableRules

end Peg.Grammar
end Packrat
