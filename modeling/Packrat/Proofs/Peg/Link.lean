/-
# Linking

Linking puts numbers in the place of names, wherever these stand in a term, and changes nothing
else (`Term.link_gives`); it fails only if some name has no number.  For a list of rules,
names are looked up among the rules themselves (`Grammar.linkRules_gives`).

A reference leads to the same rule whether it is by name or by number, so the rules that may match
nothing are the same before and after, and so is the graph of left calls
(`Grammar.leftCallGraph_linked`).
-/

import Packrat.Proofs.Peg.Part
import Packrat.Proofs.Peg.Plainly

namespace Packrat
namespace Peg

/-- The number in the place of a name that has one. -/
def RuleRef.numbered (id? : String → Option Nat) : RuleRef → RuleRef
  | .named name =>
    match id? name with
    | some id => .linked id
    | none => .named name
  | .linked id => .linked id

namespace Term

mutual

/-- The term with other references in the place of its own. -/
def withRefs (f : RuleRef → RuleRef) : Term → Term
  | .token kind => .token kind
  | .split kind => .split kind
  | .word text => .word text
  | .any => .any
  | .ended => .ended
  | .seq items => .seq (withRefsAll f items)
  | .choice alternatives => .choice (withRefsAll f alternatives)
  | .opt body => .opt (body.withRefs f)
  | .star body => .star (body.withRefs f)
  | .plus body => .plus (body.withRefs f)
  | .ahead body => .ahead (body.withRefs f)
  | .notAhead body => .notAhead (body.withRefs f)
  | .ref rule => .ref (f rule)
  | .node kind body => .node kind (body.withRefs f)
  | .scoped set clear body => .scoped set clear (body.withRefs f)
  | .gate flags whenSet body => .gate flags whenSet (body.withRefs f)
  | .fold operand tails max => .fold (operand.withRefs f) (withRefsTails f tails) max

/-- Each of some terms with other references. -/
def withRefsAll (f : RuleRef → RuleRef) : List Term → List Term
  | [] => []
  | t :: ts => t.withRefs f :: withRefsAll f ts

/-- Each of some tails with other references. -/
def withRefsTails (f : RuleRef → RuleRef) : List (Kind × Term) → List (Kind × Term)
  | [] => []
  | (kind, t) :: ts => (kind, t.withRefs f) :: withRefsTails f ts

end

mutual

/-- The terms that stand in a term with other references. -/
theorem parts_withRefs (f : RuleRef → RuleRef) :
    ∀ t : Term, (t.withRefs f).parts = t.parts.map (withRefs f)
  | .token _ | .split _ | .word _ | .any | .ended | .ref _ => rfl
  | .opt body | .star body | .plus body | .ahead body | .notAhead body | .node _ body
  | .scoped _ _ body | .gate _ _ body => by
    simp only [withRefs, parts, List.map_cons, parts_withRefs f body]
  | .seq items | .choice items => by
    simp only [withRefs, parts, List.map_cons, partsOfAll_withRefs f items]
  | .fold operand tails _ => by
    simp only [withRefs, parts, List.map_cons, List.map_append, parts_withRefs f operand,
      partsOfTails_withRefs f tails]

theorem partsOfAll_withRefs (f : RuleRef → RuleRef) :
    ∀ ts : List Term, partsOfAll (withRefsAll f ts) = (partsOfAll ts).map (withRefs f)
  | [] => rfl
  | t :: ts => by
    simp only [withRefsAll, partsOfAll, List.map_append, parts_withRefs f t,
      partsOfAll_withRefs f ts]

theorem partsOfTails_withRefs (f : RuleRef → RuleRef) : ∀ tails : List (Kind × Term),
    partsOfTails (withRefsTails f tails) = (partsOfTails tails).map (withRefs f)
  | [] => rfl
  | (_, t) :: tails => by
    simp only [withRefsTails, partsOfTails, List.map_append, parts_withRefs f t,
      partsOfTails_withRefs f tails]

end

/-- The references of a term with others in their place are these. -/
theorem mem_parts_withRefs {f : RuleRef → RuleRef} {r : RuleRef} {t : Term}
    (h : .ref r ∈ (t.withRefs f).parts) : ∃ r', .ref r' ∈ t.parts ∧ f r' = r := by
  rw [parts_withRefs] at h
  obtain ⟨u, hu, heq⟩ := List.mem_map.mp h
  cases u with
  | ref r' => exact ⟨r', hu, by simpa [withRefs] using heq⟩
  | _ => simp [withRefs] at heq

/-- Every name in a term has a number. -/
def HasNumbers (id? : String → Option Nat) (t : Term) : Prop :=
  t.Every fun u => ∀ name, u = .ref (.named name) → (id? name).isSome = true

/-- A computation gives one value, or fails if `P` does not hold. -/
def Gives {ε α : Type} (x : Except ε α) (P : Prop) (v : α) : Prop := ∀ b, x = .ok b ↔ P ∧ b = v

section

variable {ε α β γ : Type} {x : Except ε α} {y : Except ε β} {P Q : Prop} {v : α} {w : β}

theorem Gives.ok (hP : P) : Gives (.ok v : Except ε α) P v := fun b => by
  constructor
  · intro h
    cases h
    exact ⟨hP, rfl⟩
  · rintro ⟨-, rfl⟩
    rfl

theorem Gives.error {e : ε} (hP : ¬ P) : Gives (.error e) P v := fun b => by
  constructor
  · intro h
    cases h
  · exact fun h => absurd h.1 hP

theorem Gives.congr (h : Gives x P v) (hPQ : P ↔ Q) : Gives x Q v := fun b => by
  rw [h b, hPQ]

theorem Gives.not_of_error {e : ε} (h : Gives (.error e) P v) : ¬ P := by
  intro hP
  cases (h v).mpr ⟨hP, rfl⟩

/-- Going on with the value of a computation. -/
theorem Gives.map (h : Gives x P v) (f : α → β) : Gives (do return f (← x)) P (f v) := by
  cases x with
  | error e => exact .error h.not_of_error
  | ok a =>
    obtain ⟨hP, rfl⟩ := (h a).mp rfl
    exact .ok hP

/-- Going on with the values of two computations. -/
theorem Gives.map₂ (h : Gives x P v) (h' : Gives y Q w) (f : α → β → γ) :
    Gives (do let a ← x; return f a (← y)) (P ∧ Q) (f v w) := by
  cases x with
  | error e => exact .error fun hPQ => h.not_of_error hPQ.1
  | ok a =>
    obtain ⟨hP, rfl⟩ := (h a).mp rfl
    exact (h'.map (f a)).congr (and_iff_right hP).symm

end

variable {id? : String → Option Nat}

/-- Names stand in the term itself, if it is a reference, and in the terms right inside it. -/
theorem hasNumbers_iff {t : Term} (ht : ∀ r, t ≠ .ref r) :
    t.HasNumbers id? ↔ ∀ c ∈ t.children, c.HasNumbers id? :=
  every_iff.trans (and_iff_right fun _ h => absurd h (ht _))

/-- A name that has a number. -/
theorem hasNumbers_named {name : String} :
    (Term.ref (.named name)).HasNumbers id? ↔ (id? name).isSome = true := by
  simp [HasNumbers, Every, parts]

mutual

/-- **Linking puts numbers in the place of names**, and does nothing else.  It fails only if a name
has no number. -/
theorem link_gives : ∀ t : Term,
    Gives (t.link id?) (t.HasNumbers id?) (t.withRefs (.numbered id?))
  | .token _ | .split _ | .word _ | .any | .ended =>
    .ok ((hasNumbers_iff (by simp)).mpr (by simp [children]))
  | .ref (.linked _) => .ok (by simp [HasNumbers, Every, parts])
  | .ref (.named name) => by
    intro t'
    rw [hasNumbers_named, link, withRefs, RuleRef.numbered]
    cases id? name with
    | none => simp
    | some id => simp [eq_comm]
  | .opt body | .star body | .plus body | .ahead body | .notAhead body | .node _ body
  | .scoped _ _ body | .gate _ _ body =>
    ((link_gives body).map _).congr ((hasNumbers_iff (by simp)).trans (by simp [children])).symm
  | .seq items | .choice items =>
    ((linkAll_gives items).map _).congr ((hasNumbers_iff (by simp)).trans (by simp [children])).symm
  | .fold operand tails max =>
    ((link_gives operand).map₂ (linkTails_gives tails) fun operand tails =>
      fold operand tails max).congr
        ((hasNumbers_iff (by simp)).trans (by rw [children, List.forall_mem_cons])).symm

/-- Linking some terms. -/
theorem linkAll_gives : ∀ ts : List Term, Gives (linkAll id? ts) (∀ t ∈ ts, t.HasNumbers id?)
    (withRefsAll (.numbered id?) ts)
  | [] => .ok (by simp)
  | t :: ts => ((link_gives t).map₂ (linkAll_gives ts) List.cons).congr (by simp)

/-- Linking some tails. -/
theorem linkTails_gives : ∀ tails : List (Kind × Term),
    Gives (linkTails id? tails) (∀ t ∈ tails.map (·.2), t.HasNumbers id?)
      (withRefsTails (.numbered id?) tails)
  | [] => .ok (by simp)
  | (kind, t) :: tails =>
    ((link_gives t).map₂ (linkTails_gives tails) fun t tails => (kind, t) :: tails).congr
      (by rw [List.map_cons, List.forall_mem_cons])

end

/-! ## Left calls of linked terms -/

variable {null : RuleRef → Bool} {f : RuleRef → RuleRef}

mutual

/-- A term with other references is nullable when it is with those in the place of its own. -/
theorem nullable_withRefs : ∀ t : Term, (t.withRefs f).nullable null = t.nullable (null ∘ f)
  | .token _ | .split _ | .word _ | .any | .ended | .opt _ | .star _ | .ahead _ | .notAhead _
  | .ref _ => rfl
  | .seq items => by simp only [withRefs, nullable, allNullable_withRefs items]
  | .choice items => by simp only [withRefs, nullable, anyNullable_withRefs items]
  | .plus body | .node _ body | .scoped _ _ body | .gate _ _ body => by
    simp only [withRefs, nullable, nullable_withRefs body]
  | .fold operand _ _ => by simp only [withRefs, nullable, nullable_withRefs operand]

theorem allNullable_withRefs :
    ∀ ts : List Term, allNullable null (withRefsAll f ts) = allNullable (null ∘ f) ts
  | [] => rfl
  | t :: ts => by
    simp only [withRefsAll, allNullable, nullable_withRefs t, allNullable_withRefs ts]

theorem anyNullable_withRefs :
    ∀ ts : List Term, anyNullable null (withRefsAll f ts) = anyNullable (null ∘ f) ts
  | [] => rfl
  | t :: ts => by
    simp only [withRefsAll, anyNullable, nullable_withRefs t, anyNullable_withRefs ts]

end

mutual

/-- The left calls of a term with other references. -/
theorem leftCalls_withRefs :
    ∀ t : Term, (t.withRefs f).leftCalls null = (t.leftCalls (null ∘ f)).map f
  | .token _ | .split _ | .word _ | .any | .ended | .ref _ => rfl
  | .seq items => by simp only [withRefs, leftCalls, leftCallsOfSeq_withRefs items]
  | .choice items => by simp only [withRefs, leftCalls, leftCallsOfAll_withRefs items]
  | .opt body | .star body | .plus body | .ahead body | .notAhead body | .node _ body
  | .scoped _ _ body | .gate _ _ body => by
    simp only [withRefs, leftCalls, leftCalls_withRefs body]
  | .fold operand tails _ => by
    simp only [withRefs, leftCalls, leftCalls_withRefs operand, nullable_withRefs,
      leftCallsOfTails_withRefs tails, List.map_append, apply_ite (List.map f), List.map_nil]

theorem leftCallsOfSeq_withRefs : ∀ ts : List Term,
    leftCallsOfSeq null (withRefsAll f ts) = (leftCallsOfSeq (null ∘ f) ts).map f
  | [] => rfl
  | t :: ts => by
    simp only [withRefsAll, leftCallsOfSeq, leftCalls_withRefs t, nullable_withRefs,
      leftCallsOfSeq_withRefs ts, List.map_append, apply_ite (List.map f), List.map_nil]

theorem leftCallsOfAll_withRefs : ∀ ts : List Term,
    leftCallsOfAll null (withRefsAll f ts) = (leftCallsOfAll (null ∘ f) ts).map f
  | [] => rfl
  | t :: ts => by
    simp only [withRefsAll, leftCallsOfAll, leftCalls_withRefs t, leftCallsOfAll_withRefs ts,
      List.map_append]

theorem leftCallsOfTails_withRefs : ∀ tails : List (Kind × Term),
    leftCallsOfTails null (withRefsTails f tails) = (leftCallsOfTails (null ∘ f) tails).map f
  | [] => rfl
  | (_, t) :: tails => by
    simp only [withRefsTails, leftCallsOfTails, leftCalls_withRefs t,
      leftCallsOfTails_withRefs tails, List.map_append]

end

end Term

namespace Grammar

/-- The rules with numbers in the place of the names that a grammar knows. -/
def linked (g : Grammar) : Grammar :=
  ⟨g.rules.map fun rule => { rule with body := rule.body.withRefs (.numbered g.id?) }⟩

variable (g : Grammar)

@[simp] theorem size_linked : g.linked.rules.size = g.rules.size := by simp [linked]

theorem getElem?_linked (id : Nat) : g.linked.rules[id]? = (g.rules[id]?).map fun rule =>
    { rule with body := rule.body.withRefs (.numbered g.id?) } := by
  simp [linked]

@[simp] theorem id?_linked : g.linked.id? = g.id? := by
  funext name
  simp [linked, id?, Array.findIdx?_map, Function.comp_def]

/-- A reference leads to the same rule by name and by number. -/
@[simp] theorem resolve?_linked (r : RuleRef) :
    g.linked.resolve? (r.numbered g.id?) = g.resolve? r := by
  cases r with
  | linked id => rfl
  | named name =>
    cases hid : g.id? name <;> simp [RuleRef.numbered, resolve?, hid]

theorem isMarked_linked (marks : Array Bool) :
    g.linked.isMarked marks ∘ RuleRef.numbered g.id? = g.isMarked marks := by
  funext r
  simp [isMarked]

theorem markRound_linked (marks : Array Bool) : g.linked.markRound marks = g.markRound marks := by
  refine Array.ext_getElem? fun id => ?_
  simp only [markRound, Array.getElem?_mapIdx, getElem?_linked, Option.map_map]
  refine congrArg (Option.map · g.rules[id]?) (funext fun rule => ?_)
  simp only [Function.comp_apply, Term.nullable_withRefs, isMarked_linked]

theorem markRounds_linked (n : Nat) :
    ∀ marks : Array Bool, g.linked.markRounds n marks = g.markRounds n marks := by
  induction n with
  | zero => exact fun _ => rfl
  | succ n ih =>
    intro marks
    simp only [markRounds, markRound_linked, ih]

theorem nullableRules_linked : g.linked.nullableRules = g.nullableRules := by
  simp only [nullableRules, size_linked, markRounds_linked]

/-- **Linking does not change the graph of left calls.** -/
theorem leftCallGraph_linked : g.linked.leftCallGraph = g.leftCallGraph := by
  refine Array.ext_getElem? fun id => ?_
  simp only [leftCallGraph, Array.getElem?_map, getElem?_linked, Option.map_map]
  refine congrArg (Option.map · g.rules[id]?) (funext fun rule => ?_)
  simp only [Function.comp_apply, Term.leftCalls_withRefs, nullableRules_linked, isMarked_linked,
    List.filterMap_map]
  exact congrArg (List.filterMap · _) (funext g.resolve?_linked)

theorem leftCycle?_linked : g.linked.leftCycle? = g.leftCycle? := by
  simp only [leftCycle?, leftCallGraph_linked, size_linked]

/-! ## Linking rules -/

/-- **Rules are linked when every name in them has a number.** -/
theorem linkRules_gives (id? : String → Option Nat) (rules : List Rule) :
    Term.Gives (linkRules id? rules) (∀ rule ∈ rules, rule.body.HasNumbers id?)
      (rules.map fun rule => { rule with body := rule.body.withRefs (.numbered id?) }) := by
  induction rules with
  | nil => exact .ok (by simp)
  | cons rule rules ih =>
    rw [linkRules, List.mapM_cons]
    refine (Term.Gives.map₂ ?_ ih List.cons).congr List.forall_mem_cons.symm
    have hbody := @Term.link_gives id? rule.body
    cases h : rule.body.link id? with
    | error target =>
      rw [h] at hbody
      exact .error hbody.not_of_error
    | ok body =>
      obtain ⟨hnumbers, rfl⟩ := (hbody body).mp h
      exact .ok hnumbers

end Grammar
end Peg
end Packrat
