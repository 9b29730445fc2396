/-
# Which nodes a term gives

`Grammar.Makes` says for a kind which terms a grammar makes nodes of, all over its rules.  What
stands under a node of a kind may depend on the node around it, though: two rules can make nodes of
one kind, each for a place of its own.  So a check goes along with the term (`Term.offers`): it is
asked of the nodes that the term itself gives, and for each it is told what stands under the node.

| term | asks |
| --- | --- |
| a terminal, a lookahead | nothing |
| `ref` | the rule's node, or its body |
| `node` | the node |
| `fold` | the operand, and the node of each tail around what was gathered before |
| the others | the terms inside |

Rules that make no node are written out to some depth; below that the check counts as failed.  What
has passed is so for all that the term can give (`Yields.isOffered`), and the term that comes
with a node can be checked in turn, from node to node on the way down.
-/

import Packrat.Proofs.Peg.Origin

namespace Packrat
namespace Peg

namespace Term

variable (check : Kind → Term → Bool) (of : RuleRef → Bool)

mutual

/-- All nodes that a term gives pass a check, by what is known of references. -/
def offers : Term → Bool
  | .token _ | .split _ | .word _ | .any | .ended | .ahead _ | .notAhead _ => true
  | .seq items | .choice items => offersAll items
  | .opt body | .star body | .plus body | .scoped _ _ body | .gate _ _ body => body.offers
  | .ref rule => of rule
  | .node kind body => check kind body
  | .fold operand tails _ =>
    operand.offers && tails.all fun tail => check tail.1 (.seq [.fold operand tails none, tail.2])

/-- All nodes that some terms give pass a check. -/
def offersAll : List Term → Bool
  | [] => true
  | t :: ts => t.offers && offersAll ts

end

variable {check of} in
theorem offers_of_mem {t : Term} {ts : List Term} (h : offersAll check of ts = true) (ht : t ∈ ts) :
    t.offers check of = true := by
  induction ts with
  | nil => cases ht
  | cons t' ts ih =>
    obtain ⟨hhead, htail⟩ := Bool.and_eq_true_iff.mp h
    rcases List.mem_cons.mp ht with rfl | ht
    · exact hhead
    · exact ih htail ht

end Term

namespace Grammar

/-- All nodes that a rule gives pass a check: its own, if it makes one, or else those of its body, in
which references are written out to a depth of `n`. -/
def offersRule (g : Grammar) (check : Kind → Term → Bool) : Nat → RuleRef → Bool
  | 0, _ => false
  | n + 1, r =>
    match (g.resolve? r).bind (g.rules[·]?) with
    | some rule =>
      match rule.kind with
      | some kind => check kind rule.body
      | none => rule.body.offers check (g.offersRule check n)
    | none => true

/-- All nodes that a term gives pass a check, to a depth of `n` references. -/
abbrev offers (g : Grammar) (check : Kind → Term → Bool) (n : Nat) (t : Term) : Bool :=
  t.offers check (g.offersRule check n)

/-- Under each node among some trees stands what a term gives that has passed a check for it. -/
def HasOffer (g : Grammar) (check : Kind → Term → Bool) (ns : List Match) : Prop :=
  ∀ kind ms, Match.node kind ms ∈ ns → ∃ t, check kind t = true ∧ g.Yields (.term t) ms

variable {g : Grammar} {check : Kind → Term → Bool} {ns ms : List Match}

theorem HasOffer.nil : g.HasOffer check [] := fun _ _ h => by cases h

theorem HasOffer.token {index : Nat} {kind : Kind} {part : Option (UInt8 × UInt8)} :
    g.HasOffer check [.token index kind part] := by
  intro _ _ h
  cases List.mem_singleton.mp h

theorem HasOffer.node {kind : Kind} {t : Term} (hcheck : check kind t = true)
    (ht : g.Yields (.term t) ns) : g.HasOffer check [.node kind ns] := by
  intro _ _ h
  cases List.mem_singleton.mp h
  exact ⟨t, hcheck, ht⟩

theorem HasOffer.append (hns : g.HasOffer check ns) (hms : g.HasOffer check ms) :
    g.HasOffer check (ns ++ ms) := fun kind inner h =>
  (List.mem_append.mp h).elim (hns kind inner) (hms kind inner)

end Grammar

/-- What a goal gives has passed the checks that the goal has.  The rounds of a fold go on from trees
that have, and that the fold can give. -/
def Goal.IsOffered (g : Grammar) (ns : List Match) : Goal → Prop
  | .term t => ∀ check n, g.offers check n t = true → g.HasOffer check ns
  | .rounds tails _ done => ∀ operand check,
      (∀ tail ∈ tails, check tail.1 (.seq [.fold operand tails none, tail.2]) = true) →
      g.Yields (.term (.fold operand tails none)) done → g.HasOffer check done →
      g.HasOffer check ns

/-- **What a term gives has passed the checks that the term has.** -/
theorem Grammar.Yields.isOffered {g : Grammar} {goal : Goal} {ns : List Match}
    (h : g.Yields goal ns) : goal.IsOffered g ns := by
  induction h with
  | token => exact fun _ _ _ => .token
  | split => exact fun _ _ _ => .token
  | word => exact fun _ _ _ => .token
  | any => exact fun _ _ _ => .token
  | ended => exact fun _ _ _ => .nil
  | seq_nil => exact fun _ _ _ => .nil
  | seq_cons _ _ ih₁ ih₂ =>
    intro check n hoffers
    obtain ⟨hhead, htail⟩ := Bool.and_eq_true_iff.mp hoffers
    exact (ih₁ check n hhead).append (ih₂ check n htail)
  | choice ht _ ih => exact fun check n hoffers => ih check n (Term.offers_of_mem hoffers ht)
  | opt_none => exact fun _ _ _ => .nil
  | opt_some _ ih => exact fun check n hoffers => ih check n hoffers
  | star_nil => exact fun _ _ _ => .nil
  | star_cons _ _ ih₁ ih₂ =>
    exact fun check n hoffers => (ih₁ check n hoffers).append (ih₂ check n hoffers)
  | plus _ _ ih₁ ih₂ =>
    exact fun check n hoffers => (ih₁ check n hoffers).append (ih₂ check n hoffers)
  | ahead => exact fun _ _ _ => .nil
  | notAhead => exact fun _ _ _ => .nil
  | @ref r id rule ns hr hrule hbody ih =>
    intro check n hoffers
    cases n with
    | zero => cases hoffers
    | succ n =>
      simp only [Grammar.offers, Term.offers, Grammar.offersRule, hr, Option.bind_some,
        hrule] at hoffers
      rw [Rule.close]
      cases hkind : rule.kind with
      | some kind =>
        rw [hkind] at hoffers
        exact .node hoffers hbody
      | none =>
        rw [hkind] at hoffers
        exact ih check n hoffers
  | node hbody => exact fun check _ hoffers => .node hoffers hbody
  | scope _ ih => exact fun check n hoffers => ih check n hoffers
  | gate _ ih => exact fun check n hoffers => ih check n hoffers
  | @fold operand tails max ns ms hoperand _ ih₁ ih₂ =>
    intro check n hoffers
    obtain ⟨hhead, htails⟩ := Bool.and_eq_true_iff.mp hoffers
    exact ih₂ operand check (List.all_eq_true.mp htails) (.fold hoperand .rounds_end)
      (ih₁ check n hhead)
  | rounds_end => exact fun _ _ _ _ hdone => hdone
  | @rounds_more tails left done kind t ns ms htail hbody _ ih₁ ih₂ =>
    intro operand check htails hyields hdone
    -- a sequence of the fold and the tail gives what stands under the node
    have hseq := hyields.seq_cons (hbody.seq_cons .seq_nil)
    rw [List.append_nil] at hseq
    exact ih₂ operand check htails (hyields.fold_round htail hbody)
      (.node (htails (kind, t) htail) hseq)

end Peg
end Packrat
