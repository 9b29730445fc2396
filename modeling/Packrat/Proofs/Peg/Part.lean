/-
# Parts of a term

The terms that stand in a term, itself included.  What is asked of every part of a term is
asked of every part of the terms right inside it (`Term.Every.child`), and these are
smaller.
-/

import Packrat.Peg.Term

namespace Packrat
namespace Peg
namespace Term

/-- The terms right inside a term. -/
def children : Term → List Term
  | .token _ | .split _ | .word _ | .any | .ended | .ref _ => []
  | .seq items | .choice items => items
  | .opt body | .star body | .plus body | .ahead body | .notAhead body | .node _ body
  | .scoped _ _ body | .gate _ _ body => [body]
  | .fold operand tails _ => operand :: tails.map (·.2)

mutual

/-- The terms that stand in a term, from the outside in. -/
def parts : Term → List Term
  | .token kind => [.token kind]
  | .split kind => [.split kind]
  | .word text => [.word text]
  | .any => [.any]
  | .ended => [.ended]
  | .ref rule => [.ref rule]
  | .seq items => .seq items :: partsOfAll items
  | .choice items => .choice items :: partsOfAll items
  | .opt body => .opt body :: body.parts
  | .star body => .star body :: body.parts
  | .plus body => .plus body :: body.parts
  | .ahead body => .ahead body :: body.parts
  | .notAhead body => .notAhead body :: body.parts
  | .node kind body => .node kind body :: body.parts
  | .scoped set clear body => .scoped set clear body :: body.parts
  | .gate flags whenSet body => .gate flags whenSet body :: body.parts
  | .fold operand tails max => .fold operand tails max :: (operand.parts ++ partsOfTails tails)

/-- The terms that stand in some terms. -/
def partsOfAll : List Term → List Term
  | [] => []
  | t :: ts => t.parts ++ partsOfAll ts

/-- The terms that stand in some tails. -/
def partsOfTails : List (Kind × Term) → List Term
  | [] => []
  | (_, t) :: ts => t.parts ++ partsOfTails ts

end

attribute [local simp] parts partsOfAll partsOfTails

theorem self_mem_parts (t : Term) : t ∈ t.parts := by
  cases t <;> simp

theorem mem_partsOfAll {u : Term} {ts : List Term} :
    u ∈ partsOfAll ts ↔ ∃ c ∈ ts, u ∈ c.parts := by
  induction ts with
  | nil => simp
  | cons t ts ih => simp [ih]

theorem mem_partsOfTails {u : Term} {tails : List (Kind × Term)} :
    u ∈ partsOfTails tails ↔ ∃ c ∈ tails.map (·.2), u ∈ c.parts := by
  induction tails with
  | nil => simp
  | cons tail tails ih => simp [ih]

/-- The parts of a term are itself and the parts of the terms right inside it. -/
theorem mem_parts_iff {u t : Term} : u ∈ t.parts ↔ u = t ∨ ∃ c ∈ t.children, u ∈ c.parts := by
  cases t <;> simp [children, mem_partsOfAll, mem_partsOfTails]

theorem size_lt_sizeAll {c : Term} {ts : List Term} (hc : c ∈ ts) : c.size < sizeAll ts := by
  induction ts with
  | nil => cases hc
  | cons t ts ih =>
    rw [sizeAll]
    rcases List.mem_cons.mp hc with rfl | hmem
    · omega
    · have hlt := ih hmem
      omega

theorem size_lt_sizeTails {tail : Kind × Term} {tails : List (Kind × Term)}
    (htail : tail ∈ tails) : tail.2.size < sizeTails tails := by
  induction tails with
  | nil => cases htail
  | cons other tails ih =>
    rw [sizeTails]
    rcases List.mem_cons.mp htail with rfl | hmem
    · omega
    · have hlt := ih hmem
      omega

theorem size_pos (t : Term) : 0 < t.size := by
  cases t <;> rw [size] <;> omega

/-- A term is larger than the terms right inside it. -/
theorem size_lt {c t : Term} (hc : c ∈ t.children) : c.size < t.size := by
  cases t with
  | token kind => cases hc
  | split kind => cases hc
  | word text => cases hc
  | any => cases hc
  | ended => cases hc
  | ref rule => cases hc
  | seq items =>
    have hlt : c.size < sizeAll items := size_lt_sizeAll hc
    rw [size]
    omega
  | choice items =>
    have hlt : c.size < sizeAll items := size_lt_sizeAll hc
    rw [size]
    omega
  | fold operand tails max =>
    rw [size]
    rcases List.mem_cons.mp hc with rfl | hmem
    · omega
    · obtain ⟨tail, htail, rfl⟩ := List.mem_map.mp hmem
      have hlt := size_lt_sizeTails htail
      omega
  | _ =>
    obtain rfl := List.mem_singleton.mp hc
    rw [size]
    omega

/-- Every part of the term is as `P` says. -/
def Every (P : Term → Prop) (t : Term) : Prop := ∀ u ∈ t.parts, P u

variable {P : Term → Prop} {c t : Term}

/-- What is asked of every part is asked of the term and of the parts right inside it. -/
theorem every_iff : t.Every P ↔ P t ∧ ∀ c ∈ t.children, c.Every P := by
  unfold Every
  constructor
  · intro h
    exact ⟨h t t.self_mem_parts, fun c hc u hu => h u (mem_parts_iff.mpr (.inr ⟨c, hc, hu⟩))⟩
  · rintro ⟨hself, hchild⟩ u hu
    rcases mem_parts_iff.mp hu with rfl | ⟨c, hc, huc⟩
    · exact hself
    · exact hchild c hc u huc

theorem Every.self (h : t.Every P) : P t := (every_iff.mp h).1

theorem Every.child (h : t.Every P) (hc : c ∈ t.children) : c.Every P := (every_iff.mp h).2 c hc

/-- A rule by its name has no parts but itself. -/
theorem every_rule {name : String} (h : P (.rule name)) : (rule name).Every P := by
  intro t ht
  obtain rfl := List.mem_singleton.mp ht
  exact h

/-- A rule and the end of the text behind it: the parts of this are the two and the sequence. -/
theorem every_rule_ended {name : String} (hseq : P (.seq [.rule name, .ended]))
    (hrule : P (.rule name)) (hended : P .ended) : (seq [rule name, .ended]).Every P := by
  refine every_iff.mpr ⟨hseq, ?_⟩
  rintro c (_ | ⟨_, _ | ⟨_, hc⟩⟩)
  · exact every_rule hrule
  · intro t ht
    obtain rfl := List.mem_singleton.mp ht
    exact hended
  · cases hc

end Term
end Peg
end Packrat
