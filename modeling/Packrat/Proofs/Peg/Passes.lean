/-
# Marking in place

`Grammar.nullableRules` marks in rounds: a round asks all rules on the marks that there were
before it.  The check of a grammar marks in place, as `Grammar.passes` does: a rule sees the marks
that the rules before it have got in the same pass, and passes are made until one sets no mark.

| | a rule is asked on |
| --- | --- |
| `markRound` | the marks before the round |
| `visitFrom` | the marks before the pass, and those that the pass has set |

Where the order matters for what a pass leaves, it does not for the end.  Both ways only set marks
that every closed set has (`Grammar.IsClosed`), and both end when what they have marked is closed;
so what is left is the least closed set, by rounds (`isLeast_nullableRules`) and in place
(`passes_eq_nullableRules`).
-/

import Mathlib.Order.Bounds.Defs
import Packrat.Proofs.Peg.Nullable

namespace Packrat
namespace Peg

namespace Term

variable {null null' : RuleRef → Bool}

mutual

/-- The more references may match without reading, the more terms may. -/
theorem nullable_mono (h : ∀ r, null r = true → null' r = true) :
    ∀ t : Term, t.nullable null = true → t.nullable null' = true
  | .token _, ht | .split _, ht | .word _, ht | .any, ht => by cases ht
  | .ended, _ | .opt _, _ | .star _, _ | .ahead _, _ | .notAhead _, _ => rfl
  | .seq items, ht => allNullable_mono h items ht
  | .choice items, ht => anyNullable_mono h items ht
  | .plus body, ht | .node _ body, ht | .scoped _ _ body, ht | .gate _ _ body, ht =>
    nullable_mono h body ht
  | .ref r, ht => h r ht
  | .fold operand _ _, ht => nullable_mono h operand ht

theorem allNullable_mono (h : ∀ r, null r = true → null' r = true) :
    ∀ ts : List Term, allNullable null ts = true → allNullable null' ts = true
  | [], _ => rfl
  | t :: ts, hts => by
    rw [allNullable, Bool.and_eq_true] at hts ⊢
    exact ⟨nullable_mono h t hts.1, allNullable_mono h ts hts.2⟩

theorem anyNullable_mono (h : ∀ r, null r = true → null' r = true) :
    ∀ ts : List Term, anyNullable null ts = true → anyNullable null' ts = true
  | [], hts => by cases hts
  | t :: ts, hts => by
    rw [anyNullable, Bool.or_eq_true] at hts ⊢
    exact hts.imp (nullable_mono h t) (anyNullable_mono h ts)

end

end Term

namespace Grammar

variable {g : Grammar} {marks : Array Bool} {S : Nat → Bool}

/-! ## Closed sets of rules -/

/-- A set of rules has each rule whose body is nullable when the rules of the set are. -/
def IsClosed (g : Grammar) (S : Nat → Bool) : Prop :=
  ∀ id rule, g.rules[id]? = some rule →
    rule.body.nullable (fun r => (g.resolve? r).any S) = true → S id = true

/-- The set of marked rules. -/
def markedIn (marks : Array Bool) : Nat → Bool := fun id => marks.getD id false

/-- A reference to a marked rule is to one of the set. -/
theorem any_of_isMarked (hmarks : markedIn marks ≤ S) (r : RuleRef)
    (hr : g.isMarked marks r = true) : (g.resolve? r).any S = true := by
  obtain ⟨id, hid, hmark⟩ := (Option.any_eq_true ..).mp hr
  exact (Option.any_eq_true ..).mpr ⟨id, hid, Bool.le_iff_imp.mp (hmarks id) hmark⟩

/-- **Marking a rule leaves a closed set**: a body that is nullable by marks of the set belongs to a
rule of the set. -/
theorem IsClosed.of_nullable (hS : g.IsClosed S) (hmarks : markedIn marks ≤ S) {id : Nat}
    {rule : Rule} (hrule : g.rules[id]? = some rule)
    (hbody : rule.body.nullable (g.isMarked marks) = true) : S id = true :=
  hS id rule hrule (rule.body.nullable_mono (any_of_isMarked hmarks) hbody)

theorem markedIn_replicate_le (n : Nat) (S : Nat → Bool) :
    markedIn (Array.replicate n false) ≤ S := by
  intro id
  rw [markedIn, Array.getD_eq_getD_getElem?, Array.getElem?_replicate]
  split <;> exact Bool.false_le _

/-! ## By rounds -/

/-- A round marks only what a closed set has. -/
theorem IsClosed.markRound_le (hS : g.IsClosed S) (hmarks : markedIn marks ≤ S) :
    markedIn (g.markRound marks) ≤ S := by
  intro id
  refine Bool.le_iff_imp.mpr fun hmark => ?_
  cases hrule : g.rules[id]? with
  | none =>
    rw [Array.getElem?_eq_none_iff, ← g.size_markRound marks] at hrule
    rw [markedIn, Array.getD_eq_getD_getElem?, Array.getElem?_eq_none hrule] at hmark
    cases hmark
  | some rule =>
    rw [markedIn, g.getD_markRound marks hrule, Bool.or_eq_true] at hmark
    rcases hmark with hmark | hbody
    · exact Bool.le_iff_imp.mp (hmarks id) hmark
    · exact hS.of_nullable hmarks hrule hbody

theorem IsClosed.markRounds_le (hS : g.IsClosed S) (n : Nat) : ∀ {marks : Array Bool},
    markedIn marks ≤ S → markedIn (g.markRounds n marks) ≤ S := by
  induction n with
  | zero => exact fun h => h
  | succ n ih =>
    intro marks hmarks
    simp only [markRounds]
    split
    · exact hmarks
    · exact ih (hS.markRound_le hmarks)

/-- **The nullable rules are the least closed set.** -/
theorem isLeast_nullableRules (g : Grammar) :
    IsLeast {S | g.IsClosed S} (markedIn g.nullableRules) := by
  refine ⟨fun id rule hrule hbody => ?_, fun S hS => ?_⟩
  · exact isNullable_of_body hrule hbody
  · exact IsClosed.markRounds_le hS _ (markedIn_replicate_le _ S)

/-! ## In place -/

/-- Visit a rule: it is marked if it is not yet and its body is nullable by the marks that there are
by now. -/
def visit (g : Grammar) (id : Nat) (rule : Rule) (p : Pass) : Pass :=
  if p.marks[id]? = some false ∧ rule.body.nullable (g.isMarked p.marks) = true then
    ⟨p.marks.setIfInBounds id true, true⟩
  else p

/-- Visit rules one after the other, the first of which has number `id`. -/
def visitFrom (g : Grammar) : Nat → List Rule → Pass → Pass
  | _, [], p => p
  | id, rule :: rules, p => g.visitFrom (id + 1) rules (g.visit id rule p)

/-- A pass over all rules, with the flag down at its start. -/
def pass (g : Grammar) (marks : Array Bool) : Pass := g.visitFrom 0 g.rules.toList ⟨marks, false⟩

/-- What visits do to the marks. -/
structure Grows (p p' : Pass) : Prop where
  size : p'.marks.size = p.marks.size
  count : p'.marks.count false ≤ p.marks.count false
  /-- The flag is up when it was, or when there is a new mark. -/
  changed : p'.changed = true → p.changed = true ∨ p'.marks.count false < p.marks.count false
  /-- While the flag is down, nothing has been done. -/
  rests : p'.changed = false → p' = p

theorem Grows.refl (p : Pass) : Grows p p := ⟨rfl, le_refl _, .inl, fun _ => rfl⟩

theorem Grows.trans {p p' p'' : Pass} (h : Grows p p') (h' : Grows p' p'') : Grows p p'' where
  size := h'.size.trans h.size
  count := le_trans h'.count h.count
  changed hchanged := by
    rcases h'.changed hchanged with hbefore | hlt
    · exact (h.changed hbefore).imp_right (lt_of_le_of_lt h'.count)
    · exact .inr (lt_of_lt_of_le hlt h.count)
  rests hrest := by
    have heq := h'.rests hrest
    rw [heq] at hrest
    exact heq.trans (h.rests hrest)

theorem visit_grows (g : Grammar) (id : Nat) (rule : Rule) (p : Pass) :
    Grows p (g.visit id rule p) := by
  rw [visit]
  split
  · next hset =>
    obtain ⟨hlt, hnew⟩ := Array.getElem?_eq_some_iff.mp hset.1
    have hpos : 0 < p.marks.count false := Array.count_pos_iff.mpr (hnew ▸ Array.getElem_mem hlt)
    have hcount : (p.marks.setIfInBounds id true).count false = p.marks.count false - 1 := by
      rw [Array.setIfInBounds, dif_pos hlt, Array.count_set, hnew]
      simp
    refine ⟨by simp, ?_, fun _ => .inr ?_, fun h => by cases h⟩
    · simp only [hcount]
      omega
    · simp only [hcount]
      omega
  · exact .refl p

theorem visitFrom_grows (g : Grammar) (rules : List Rule) :
    ∀ start p, Grows p (g.visitFrom start rules p) := by
  induction rules with
  | nil => exact fun _ p => .refl p
  | cons rule rules ih => exact fun start p => (visit_grows g start rule p).trans (ih _ _)

/-- Passes in place until one sets no mark. -/
def passes (g : Grammar) (marks : Array Bool) : Array Bool :=
  let p := g.pass marks
  if p.changed then passes g p.marks else p.marks
termination_by marks.count false
decreasing_by
  rename_i hchanged
  exact ((visitFrom_grows g _ 0 ⟨marks, false⟩).changed hchanged).resolve_left (by simp)

/-- **A visit sets no mark that is not in each closed set.** -/
theorem IsClosed.visit_le (hS : g.IsClosed S) {id : Nat} {rule : Rule}
    (hrule : g.rules[id]? = some rule) {p : Pass} (hmarks : markedIn p.marks ≤ S) :
    markedIn (g.visit id rule p).marks ≤ S := by
  rw [visit]
  split
  · next hset =>
    intro id'
    refine Bool.le_iff_imp.mpr fun hmark => ?_
    by_cases heq : id = id'
    · exact heq ▸ hS.of_nullable hmarks hrule hset.2
    · rw [markedIn, Array.getD_eq_getD_getElem?, Array.getElem?_setIfInBounds_ne heq] at hmark
      exact Bool.le_iff_imp.mp (hmarks id') (by rwa [markedIn, Array.getD_eq_getD_getElem?])
  · exact hmarks

theorem IsClosed.visitFrom_le (hS : g.IsClosed S) {rules : List Rule} : ∀ {start : Nat} {p : Pass},
    (∀ i rule, rules[i]? = some rule → g.rules[start + i]? = some rule) →
    markedIn p.marks ≤ S → markedIn (g.visitFrom start rules p).marks ≤ S := by
  induction rules with
  | nil => exact fun _ h => h
  | cons rule rules ih =>
    intro start p hrules hmarks
    refine ih (fun i rule' hrule' => ?_) (hS.visit_le (hrules 0 rule rfl) hmarks)
    rw [Nat.add_assoc, Nat.add_comm 1]
    exact hrules (i + 1) rule' hrule'

/-- Where no mark has been set, each rule that was visited is marked or its body is not nullable. -/
theorem marked_of_visitFrom {rules : List Rule} : ∀ {start : Nat} {p : Pass},
    (g.visitFrom start rules p).changed = false → ∀ i rule, rules[i]? = some rule →
      rule.body.nullable (g.isMarked p.marks) = true → p.marks[start + i]? ≠ some false := by
  induction rules with
  | nil => exact fun _ _ _ h => by cases h
  | cons rule rules ih =>
    intro start p hrest i rule' hrule' hbody
    -- the flag has not been up behind the first rule
    have hfirst : (g.visit start rule p).changed = false := by
      have hlater := (visitFrom_grows g rules (start + 1) (g.visit start rule p)).rests hrest
      rw [visitFrom, hlater] at hrest
      exact hrest
    have hvisit := (visit_grows g start rule p).rests hfirst
    cases i with
    | zero =>
      cases hrule'
      intro hnew
      rw [visit, if_pos ⟨hnew, hbody⟩] at hfirst
      cases hfirst
    | succ i =>
      rw [visitFrom, hvisit] at hrest
      rw [← Nat.add_assoc, Nat.add_right_comm]
      exact ih hrest i rule' hrule' hbody

theorem size_pass (g : Grammar) (marks : Array Bool) : (g.pass marks).marks.size = marks.size :=
  (visitFrom_grows g _ 0 ⟨marks, false⟩).size

theorem IsClosed.pass_le (hS : g.IsClosed S) (hmarks : markedIn marks ≤ S) :
    markedIn (g.pass marks).marks ≤ S :=
  hS.visitFrom_le (fun i rule hrule => by simpa using hrule) hmarks

/-- What a pass that sets no mark leaves is closed. -/
theorem isClosed_of_pass (hsize : marks.size = g.rules.size)
    (hrest : (g.pass marks).changed = false) : g.IsClosed (markedIn marks) := by
  intro id rule hrule hbody
  have hasked := marked_of_visitFrom hrest id rule (by rwa [Array.getElem?_toList]) hbody
  have hlt : id < marks.size := hsize ▸ (Array.getElem?_eq_some_iff.mp hrule).1
  rw [Nat.zero_add, Array.getElem?_eq_getElem hlt, ne_eq, Option.some.injEq,
    Bool.not_eq_false] at hasked
  rw [markedIn, Array.getD_eq_getD_getElem?, Array.getElem?_eq_getElem hlt, hasked]
  rfl

/-- **Passes in place end in a closed set**, and in one that each closed set around the first marks
has in it. -/
theorem passes_spec (marks : Array Bool) (hsize : marks.size = g.rules.size) :
    (g.passes marks).size = g.rules.size ∧ g.IsClosed (markedIn (g.passes marks)) ∧
      ∀ S, g.IsClosed S → markedIn marks ≤ S → markedIn (g.passes marks) ≤ S := by
  fun_induction passes g marks with
  | case1 marks p hchanged ih =>
    obtain ⟨hsizes, hclosed, hbelow⟩ := ih ((size_pass g marks).trans hsize)
    exact ⟨hsizes, hclosed, fun S hS hmarks => hbelow S hS (hS.pass_le hmarks)⟩
  | case2 marks p hrest =>
    have hrest : (g.pass marks).changed = false := Bool.not_eq_true _ ▸ hrest
    have heq : p = ⟨marks, false⟩ := (visitFrom_grows g _ 0 ⟨marks, false⟩).rests hrest
    rw [heq]
    exact ⟨hsize, isClosed_of_pass hsize hrest, fun _ _ hmarks => hmarks⟩

/-- **The order of marking does not matter for the end.** -/
theorem passes_eq_nullableRules (g : Grammar) :
    g.passes (Array.replicate g.rules.size false) = g.nullableRules := by
  obtain ⟨hsize, hclosed, hbelow⟩ :=
    passes_spec (g := g) (Array.replicate g.rules.size false) Array.size_replicate
  obtain ⟨hclosed', hleast⟩ := g.isLeast_nullableRules
  have hsame : markedIn (g.passes (Array.replicate g.rules.size false)) =
      markedIn g.nullableRules :=
    le_antisymm (hbelow _ hclosed' (markedIn_replicate_le _ _)) (hleast hclosed)
  have hsize' : g.nullableRules.size = g.rules.size := by
    rw [← g.markRound_nullableRules, g.size_markRound]
  refine Array.ext (hsize.trans hsize'.symm) fun id hid hid' => ?_
  have hmark := congrFun hsame id
  rwa [markedIn, markedIn, Array.getD_eq_getD_getElem?, Array.getD_eq_getD_getElem?,
    Array.getElem?_eq_getElem hid, Array.getElem?_eq_getElem hid'] at hmark

end Grammar
end Peg
end Packrat
