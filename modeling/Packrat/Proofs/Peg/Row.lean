/-
# Rows of children

What stands right under a node can be told by a regular expression over its children, of which only
the kind counts and whether they are leaves or nodes: a *row* (`Row`).  A term has a row, once the
rules that make no node of their own are written out in it (`Term.row`), and whatever the term gives
is a word of its row (`Yields.mem_words`).

| term | row |
| --- | --- |
| `token`, `split`, `word` | one leaf |
| `ended`, `ahead`, `notAhead` | nothing |
| `seq`, `choice`, `opt`, `star`, `plus` | the same of rows |
| `ref` | one node, or the row of the rule's body |
| `node` | one node |
| `scoped`, `gate` | the row of the body |
| `fold` | one node, if the operand is one |

The words of a row are a language in the usual sense, so that one row lies within another is a fact
about union, product and star.  A row is seen to lie within another by taking both apart, as far as
that goes (`Row.isWithin`); a table of rows for the nodes of each kind is checked in this way
against all terms that a grammar makes nodes of (`Grammar.lays`).
-/

import Mathlib.Computability.Language
import Mathlib.Order.CompletePartialOrder
import Packrat.Proofs.Peg.Children
import Packrat.Proofs.Peg.Origin

namespace Packrat
namespace Peg

open scoped Computability

/-! ## Children -/

/-- A child as its parent sees it. -/
inductive Child where
  | leaf (kind : Kind)
  | node (kind : Kind)
  deriving DecidableEq, Repr

/-- The child that a tree is. -/
def Match.child : Match → Child
  | .token _ kind _ => .leaf kind
  | .node kind _ => .node kind

/-- A set of children. -/
structure ChildSet where
  leaves : KindSet := ∅
  nodes : KindSet := ∅

namespace ChildSet

instance : Membership Child ChildSet where
  mem s c := match c with
    | .leaf kind => kind ∈ s.leaves
    | .node kind => kind ∈ s.nodes

instance : Union ChildSet := ⟨fun s t => ⟨s.leaves ∪ t.leaves, s.nodes ∪ t.nodes⟩⟩

instance : HasSubset ChildSet := ⟨fun s t => ∀ c ∈ s, c ∈ t⟩

/-- Each child of the first set is in the second. -/
def isSubset (s t : ChildSet) : Bool := s.leaves.isSubset t.leaves && s.nodes.isSubset t.nodes

variable {s t : ChildSet} {kind : Kind} {c : Child}

@[simp] theorem leaf_mem : Child.leaf kind ∈ s ↔ kind ∈ s.leaves := Iff.rfl

@[simp] theorem node_mem : Child.node kind ∈ s ↔ kind ∈ s.nodes := Iff.rfl

@[simp] theorem mem_union : c ∈ s ∪ t ↔ c ∈ s ∨ c ∈ t := by
  cases c with
  | leaf kind => exact KindSet.mem_union
  | node kind => exact KindSet.mem_union

theorem subset_of_isSubset (h : s.isSubset t = true) : s ⊆ t := by
  obtain ⟨hleaves, hnodes⟩ := Bool.and_eq_true_iff.mp h
  intro c hc
  cases c with
  | leaf kind => exact KindSet.subset_of_isSubset hleaves kind hc
  | node kind => exact KindSet.subset_of_isSubset hnodes kind hc

end ChildSet

/-! ## Rows -/

/-- A regular expression over children. -/
inductive Row where
  | nil
  | one (set : ChildSet)
  | seq (first second : Row)
  | alt (first second : Row)
  | star (body : Row)
  | any

namespace Row

/-- The words of a row. -/
def words : Row → Language Child
  | nil => 1
  | one set => {w | ∃ c ∈ set, w = [c]}
  | seq first second => first.words * second.words
  | alt first second => first.words + second.words
  | star body => body.words∗
  | any => ⊤

/-- At most once. -/
def opt (r : Row) : Row := .alt r .nil

/-- A leaf of any of the kinds. -/
def leaf (kinds : KindSet) : Row := .one { leaves := kinds }

/-- A node of any of the kinds. -/
def node (kinds : KindSet) : Row := .one { nodes := kinds }

section

variable {α : Type} {f : α → Child} {xs : List α} {r s : Row} {set : ChildSet}

/-! What a word is that stands for a list, piece by piece. -/

@[simp] theorem mem_words_nil : xs.map f ∈ nil.words ↔ xs = [] := by
  rw [words, Language.mem_one, List.map_eq_nil_iff]

@[simp] theorem mem_words_one : xs.map f ∈ (one set).words ↔ ∃ x, xs = [x] ∧ f x ∈ set := by
  constructor
  · rintro ⟨c, hc, hw⟩
    obtain ⟨x, rfl, rfl⟩ := List.map_eq_singleton_iff.mp hw
    exact ⟨x, rfl, hc⟩
  · rintro ⟨x, rfl, hx⟩
    exact ⟨f x, hx, rfl⟩

@[simp] theorem mem_words_seq : xs.map f ∈ (seq r s).words ↔
    ∃ ys zs, xs = ys ++ zs ∧ ys.map f ∈ r.words ∧ zs.map f ∈ s.words := by
  rw [words, Language.mem_mul]
  constructor
  · rintro ⟨v, hv, w, hw, hmap⟩
    obtain ⟨ys, zs, rfl, rfl, rfl⟩ := List.map_eq_append_iff.mp hmap.symm
    exact ⟨ys, zs, rfl, hv, hw⟩
  · rintro ⟨ys, zs, rfl, hys, hzs⟩
    exact ⟨_, hys, _, hzs, List.map_append.symm⟩

@[simp] theorem mem_words_alt :
    xs.map f ∈ (alt r s).words ↔ xs.map f ∈ r.words ∨ xs.map f ∈ s.words := Iff.rfl

@[simp] theorem mem_words_opt :
    xs.map f ∈ (opt r).words ↔ xs.map f ∈ r.words ∨ xs = [] := by
  rw [opt, mem_words_alt, mem_words_nil]

@[simp] theorem mem_words_star_one :
    xs.map f ∈ (star (one set)).words ↔ ∀ x ∈ xs, f x ∈ set := by
  rw [words, Language.mem_kstar]
  constructor
  · rintro ⟨ws, hxs, hws⟩ x hx
    obtain ⟨w, hw, hmem⟩ := List.mem_flatten.mp (hxs ▸ List.mem_map_of_mem hx)
    obtain ⟨c, hc, rfl⟩ := hws w hw
    rwa [List.mem_singleton.mp hmem]
  · intro h
    refine ⟨xs.map fun x => [f x], by rw [← List.flatMap_def, List.map_eq_flatMap], ?_⟩
    intro w hw
    obtain ⟨x, hx, rfl⟩ := List.mem_map.mp hw
    exact ⟨f x, h x hx, rfl⟩

end

/-! ## One row within another -/

/-- The row has the word without children. -/
def isNullable : Row → Bool
  | nil | star _ | any => true
  | one _ => false
  | seq first second => first.isNullable && second.isNullable
  | alt first second => first.isNullable || second.isNullable

/-- All words of the first row are seen to be words of the second, to a depth of `n`. -/
def isWithin : Nat → Row → Row → Bool
  | 0, _, _ => false
  | _ + 1, _, any => true
  | _ + 1, nil, s => s.isNullable
  | n + 1, alt r₁ r₂, s => isWithin n r₁ s && isWithin n r₂ s
  | n + 1, r, alt s₁ s₂ => isWithin n r s₁ || isWithin n r s₂
  | _ + 1, one a, one b => a.isSubset b
  | n + 1, one a, star s => isWithin n (one a) s
  | n + 1, seq r₁ r₂, star s => isWithin n r₁ (star s) && isWithin n r₂ (star s)
  | n + 1, star r, star s => isWithin n r (star s)
  | n + 1, seq r₁ r₂, seq s₁ s₂ =>
    isWithin n r₁ s₁ && isWithin n r₂ s₂ || s₁.isNullable && isWithin n (seq r₁ r₂) s₂
  | n + 1, r, seq s₁ s₂ =>
    s₂.isNullable && isWithin n r s₁ || s₁.isNullable && isWithin n r s₂
  | _, _, _ => false

variable {r s t : Row} {n : Nat}

theorem one_le_words (h : s.isNullable = true) : 1 ≤ s.words := by
  induction s with
  | nil => exact le_rfl
  | one _ => cases h
  | seq r s ihr ihs =>
    obtain ⟨hr, hs⟩ := Bool.and_eq_true_iff.mp h
    calc (1 : Language Child) = 1 * 1 := (one_mul 1).symm
      _ ≤ r.words * s.words := mul_le_mul' (ihr hr) (ihs hs)
  | alt r s ihr ihs =>
    rcases Bool.or_eq_true_iff.mp h with hr | hs
    · exact (ihr hr).trans le_sup_left
    · exact (ihs hs).trans le_sup_right
  | star body _ => exact one_le_kstar
  | any => exact le_top

theorem words_one_mono {a b : ChildSet} (h : a ⊆ b) : (one a).words ≤ (one b).words := by
  rintro w ⟨c, hc, rfl⟩
  exact ⟨c, h c hc, rfl⟩

/-- Behind nothing. -/
theorem le_seq_right {l : Language Child} (h : s.isNullable = true) (hl : l ≤ t.words) :
    l ≤ (seq s t).words :=
  calc l = 1 * l := (one_mul l).symm
    _ ≤ s.words * t.words := mul_le_mul' (one_le_words h) hl

/-- With nothing behind. -/
theorem le_seq_left {l : Language Child} (h : t.isNullable = true) (hl : l ≤ s.words) :
    l ≤ (seq s t).words :=
  calc l = l * 1 := (mul_one l).symm
    _ ≤ s.words * t.words := mul_le_mul' hl (one_le_words h)

/-- **What is seen to lie within another row does.** -/
theorem words_le_of_isWithin (h : isWithin n r s = true) : r.words ≤ s.words := by
  fun_induction isWithin n r s with
  | case1 => cases h
  | case2 => exact le_top
  | case3 => exact one_le_words h
  | case4 n r₁ r₂ s _ ih₁ ih₂ =>
    obtain ⟨h₁, h₂⟩ := Bool.and_eq_true_iff.mp h
    exact add_le (ih₁ h₁) (ih₂ h₂)
  | case5 n r s₁ s₂ _ _ ih₁ ih₂ =>
    rcases Bool.or_eq_true_iff.mp h with h | h
    · exact (ih₁ h).trans le_sup_left
    · exact (ih₂ h).trans le_sup_right
  | case6 => exact words_one_mono (ChildSet.subset_of_isSubset h)
  | case7 n a s ih => exact (ih h).trans le_kstar
  | case8 n r₁ r₂ s ih₁ ih₂ =>
    obtain ⟨h₁, h₂⟩ := Bool.and_eq_true_iff.mp h
    calc r₁.words * r₂.words ≤ s.words∗ * s.words∗ := mul_le_mul' (ih₁ h₁) (ih₂ h₂)
      _ = s.words∗ := kstar_mul_kstar _
  | case9 n r s ih =>
    calc r.words∗ ≤ s.words∗∗ := kstar_mono (ih h)
      _ = s.words∗ := kstar_idem _
  | case10 n r₁ r₂ s₁ s₂ ih₁ ih₂ ih =>
    rcases Bool.or_eq_true_iff.mp h with h | h
    · obtain ⟨h₁, h₂⟩ := Bool.and_eq_true_iff.mp h
      exact mul_le_mul' (ih₁ h₁) (ih₂ h₂)
    · obtain ⟨hnull, h⟩ := Bool.and_eq_true_iff.mp h
      exact le_seq_right hnull (ih h)
  | case11 n r s₁ s₂ _ _ _ ih₁ ih₂ =>
    rcases Bool.or_eq_true_iff.mp h with h | h
    · obtain ⟨hnull, h⟩ := Bool.and_eq_true_iff.mp h
      exact le_seq_left hnull (ih₁ h)
    · obtain ⟨hnull, h⟩ := Bool.and_eq_true_iff.mp h
      exact le_seq_right hnull (ih₂ h)
  | case12 => cases h

/-! ## Joining rows -/

/-- One row behind another, with nothing left out that could be seen. -/
def join : Row → Row → Row
  | nil, s => s
  | seq r₁ r₂, s => seq r₁ (r₂.join s)
  | r, nil => r
  | r, s => seq r s

/-- One row or another, as one set if both are. -/
def merge : Row → Row → Row
  | one a, one b => one (a ∪ b)
  | r, s => alt r s

theorem words_join : (r.join s).words = r.words * s.words := by
  fun_induction join r s with
  | case1 s => exact (one_mul _).symm
  | case2 r₁ r₂ s ih => rw [words, ih, words, mul_assoc]
  | case3 r => exact (mul_one _).symm
  | case4 r s => rfl

@[simp] theorem mem_words_join {α : Type} {f : α → Child} {xs : List α} :
    xs.map f ∈ (r.join s).words ↔
    ∃ ys zs, xs = ys ++ zs ∧ ys.map f ∈ r.words ∧ zs.map f ∈ s.words := by
  rw [words_join]
  exact mem_words_seq

theorem words_merge : (r.merge s).words = r.words + s.words := by
  fun_cases merge r s with
  | case1 a b =>
    refine Set.ext fun w => ?_
    show (∃ c ∈ a ∪ b, w = [c]) ↔ (∃ c ∈ a, w = [c]) ∨ ∃ c ∈ b, w = [c]
    simp only [ChildSet.mem_union, or_and_right, exists_or]
  | case2 => rfl

end Row

/-! ## Rows of terms -/

namespace Term

mutual

/-- The row of a term, by the rows of references. -/
def row (of : RuleRef → Row) : Term → Row
  | .token kind | .split kind => .leaf {kind}
  | .word _ => .leaf {.ident}
  | .any => .any
  | .ended | .ahead _ | .notAhead _ => .nil
  | .seq items => rowOfSeq of items
  | .choice alternatives => rowOfChoice of alternatives
  | .opt body => .opt (body.row of)
  | .star body => .star (body.row of)
  | .plus body => (body.row of).join (.star (body.row of))
  | .ref rule => of rule
  | .node kind _ => .node {kind}
  | .scoped _ _ body | .gate _ _ body => body.row of
  | .fold operand tails _ =>
    match operand.row of with
    | .one set => .one (set ∪ { nodes := .ofList (tails.map (·.1)) })
    | _ => .any

/-- The row of terms in sequence. -/
def rowOfSeq (of : RuleRef → Row) : List Term → Row
  | [] => .nil
  | t :: ts => (t.row of).join (rowOfSeq of ts)

/-- The row of alternatives. -/
def rowOfChoice (of : RuleRef → Row) : List Term → Row
  | [] => .one {}
  | [t] => t.row of
  | t :: ts => (t.row of).merge (rowOfChoice of ts)

end

theorem words_row_le {of : RuleRef → Row} {t : Term} {ts : List Term} (h : t ∈ ts) :
    (t.row of).words ≤ (rowOfChoice of ts).words := by
  induction ts with
  | nil => cases h
  | cons t' ts ih =>
    cases ts with
    | nil =>
      obtain rfl := List.mem_singleton.mp h
      exact le_rfl
    | cons t'' ts =>
      rw [rowOfChoice, Row.words_merge]
      · rcases List.mem_cons.mp h with rfl | h
        · exact le_sup_left
        · exact (ih h).trans le_sup_right
      · rintro ⟨⟩

end Term

namespace Grammar

/-- The row of a reference: one node, if its rule makes one, or else the row of its body, in which
references are written out to a depth of `n`. -/
def rowOf (g : Grammar) : Nat → RuleRef → Row
  | 0, _ => .any
  | n + 1, r =>
    match (g.resolve? r).bind (g.rules[·]?) with
    | some { kind := some kind, .. } => .node {kind}
    | some { kind := none, body := body, .. } => body.row (g.rowOf n)
    | none => .any

end Grammar

/-! ## What is given is a word -/

variable {g : Grammar} {ns : List Match}

/-- What a goal gives is a word of its row.  The rounds of a fold go on from one child, and give one
child. -/
def Goal.IsRowed (g : Grammar) (ns : List Match) : Goal → Prop
  | .term t => ∀ n, ns.map Match.child ∈ (t.row (g.rowOf n)).words
  | .rounds tails _ done => ∀ set : ChildSet, (∀ tail ∈ tails, .node tail.1 ∈ set) →
      done.map Match.child ∈ (Row.one set).words → ns.map Match.child ∈ (Row.one set).words

theorem Match.mem_words_one {n : Match} {set : ChildSet} (h : n.child ∈ set) :
    [n].map Match.child ∈ (Row.one set).words :=
  ⟨n.child, h, rfl⟩

/-- **What a term gives is a word of its row.** -/
theorem Grammar.Yields.isRowed {goal : Goal} (h : g.Yields goal ns) : goal.IsRowed g ns := by
  induction h with
  | token => exact fun _ => Match.mem_words_one (KindSet.mem_singleton.mpr rfl)
  | split => exact fun _ => Match.mem_words_one (KindSet.mem_singleton.mpr rfl)
  | word => exact fun _ => Match.mem_words_one (KindSet.mem_singleton.mpr rfl)
  | any => exact fun _ => Set.mem_univ _
  | ended => exact fun _ => Language.nil_mem_one
  | seq_nil => exact fun _ => Language.nil_mem_one
  | seq_cons _ _ ih₁ ih₂ =>
    intro n
    rw [Term.row, Term.rowOfSeq, Row.words_join, List.map_append]
    exact Language.append_mem_mul (ih₁ n) (ih₂ n)
  | choice ht _ ih => exact fun n => Term.words_row_le ht (ih n)
  | opt_none => exact fun _ => .inr Language.nil_mem_one
  | opt_some _ ih => exact fun n => .inl (ih n)
  | star_nil => exact fun _ => Language.nil_mem_kstar _
  | @star_cons t ns ms _ _ ih₁ ih₂ =>
    intro n
    have hle : (t.row (g.rowOf n)).words * (t.row (g.rowOf n)).words∗ ≤
        (t.row (g.rowOf n)).words∗ := mul_kstar_le_kstar
    rw [List.map_append]
    exact hle (Language.append_mem_mul (ih₁ n) (ih₂ n))
  | plus _ _ ih₁ ih₂ =>
    intro n
    rw [Term.row, Row.words_join, List.map_append]
    exact Language.append_mem_mul (ih₁ n) (ih₂ n)
  | ahead => exact fun _ => Language.nil_mem_one
  | notAhead => exact fun _ => Language.nil_mem_one
  | @ref r id rule ns hr hrule _ ih =>
    intro n
    cases n with
    | zero => exact Set.mem_univ _
    | succ n =>
      obtain ⟨name, kind, label, context, body⟩ := rule
      rw [Term.row, Grammar.rowOf, hr, Option.bind_some, hrule]
      cases kind with
      | some kind => exact Match.mem_words_one (KindSet.mem_singleton.mpr rfl)
      | none => exact ih n
  | node => exact fun _ => Match.mem_words_one (KindSet.mem_singleton.mpr rfl)
  | scope _ ih => exact ih
  | gate _ ih => exact ih
  | fold _ _ ih₁ ih₂ =>
    intro n
    rw [Term.row]
    split
    · next set hset =>
      have hoperand := ih₁ n
      rw [hset] at hoperand
      refine ih₂ _ (fun tail htail => ?_) (Row.words_one_mono (fun c hc => ?_) hoperand)
      · exact ChildSet.mem_union.mpr (.inr (KindSet.mem_ofList.mpr (List.mem_map_of_mem htail)))
      · exact ChildSet.mem_union.mpr (.inl hc)
    · exact Set.mem_univ _
  | rounds_end => exact fun _ _ hdone => hdone
  | rounds_more htail _ _ _ ih₂ =>
    intro set htails _
    exact ih₂ set htails (Match.mem_words_one (htails _ htail))

/-! ## A table of rows -/

namespace Grammar

/-- What stands under a node that the grammar makes is laid out as a table says, if the table has
the kind of the node.  References are written out to a depth of `n`. -/
def lays (g : Grammar) (under : Kind → Option Row) (n : Nat) : Bool :=
  g.allMade fun kind t => (under kind).all fun row => Row.isWithin n (t.row (g.rowOf n)) row

end Grammar

end Peg
end Packrat
