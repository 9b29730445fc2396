/-
# Where nodes come from

Three things make nodes: a rule with a kind, around what its body gives; a `node` term, around what
it holds; and a round of a fold, around all that was gathered before it and what a tail gives.  What
was gathered is itself among what the fold can give, so in each case the trees under the node are
what one term can give (`Grammar.Makes`):

| made by | kind | term |
| --- | --- | --- |
| rule | its kind | its body |
| `node` | its kind | what it holds |
| `fold` | the kind of a tail | the fold without a limit, then the tail |

All nodes in what a grammar gives are made so (`Yields.isMade`).  What is to hold of the trees under
each node can therefore be seen by looking at these terms alone (`Grammar.Makes.check`).
-/

import Packrat.Proofs.Peg.Tiling
import Packrat.Proofs.Peg.Yield

namespace Packrat
namespace Peg

/-! ## What makes nodes -/

namespace Term

/-- The nodes that a term makes, apart from those that terms inside of it make: the kind of each,
with the term for what stands under it. -/
def makes : Term → List (Kind × Term)
  | .node kind body => [(kind, body)]
  | .fold operand tails _ => tails.map fun tail => (tail.1, .seq [.fold operand tails none, tail.2])
  | _ => []

end Term

namespace Grammar

variable (g : Grammar)

/-- A rule, or a term in it, makes nodes of a kind around what a term gives. -/
inductive Makes : Kind → Term → Prop where
  | rule {id : Nat} {rule : Rule} {kind : Kind} : g.rules[id]? = some rule →
    rule.kind = some kind → Makes kind rule.body
  | term {id : Nat} {rule : Rule} {u : Term} {kind : Kind} {t : Term} :
    g.rules[id]? = some rule → u ∈ rule.body.parts → (kind, t) ∈ u.makes → Makes kind t

/-- The nodes that the parts of a term make are nodes that the grammar makes. -/
abbrev Knows (t : Term) : Prop := t.Every fun u => ∀ kind body, (kind, body) ∈ u.makes →
  g.Makes kind body

/-- A check passes for all that the grammar makes nodes of. -/
def allMade (check : Kind → Term → Bool) : Bool :=
  g.rules.toList.all fun rule => rule.kind.all (check · rule.body) &&
    rule.body.parts.all fun u => u.makes.all fun made => check made.1 made.2

variable {g} {id : Nat} {rule : Rule} {kind : Kind} {t : Term}

theorem Makes.check {check : Kind → Term → Bool} (h : g.Makes kind t)
    (hall : g.allMade check = true) : check kind t = true := by
  have hrule : ∀ {id : Nat} {rule : Rule}, g.rules[id]? = some rule →
      rule.kind.all (check · rule.body) = true ∧
        ∀ u ∈ rule.body.parts, ∀ made ∈ u.makes, check made.1 made.2 = true := by
    intro id rule hrule
    have hmem : rule ∈ g.rules.toList := Array.mem_toList_iff.mpr (Array.mem_of_getElem? hrule)
    obtain ⟨hkind, hparts⟩ := Bool.and_eq_true_iff.mp (List.all_eq_true.mp hall rule hmem)
    exact ⟨hkind, fun u hu => List.all_eq_true.mp (List.all_eq_true.mp hparts u hu)⟩
  cases h with
  | rule hget hkind => exact (Option.all_eq_true _ _).mp (hrule hget).1 _ hkind
  | term hget hu hmade => exact (hrule hget).2 _ hu _ hmade

/-- The grammar knows the bodies of its rules. -/
theorem knows_body (hrule : g.rules[id]? = some rule) : g.Knows rule.body :=
  fun _ hu _ _ hmade => .term hrule hu hmade

/-- A rule by its name makes no nodes itself. -/
theorem knows_rule (name : String) : g.Knows (.rule name) :=
  Term.every_rule fun kind body hmade => by cases hmade

/-- Nor does the end of the text behind it. -/
theorem knows_rule_ended (name : String) : g.Knows (.seq [.rule name, .ended]) := by
  refine Term.every_rule_ended ?_ ?_ ?_
  all_goals exact fun kind body hmade => by cases hmade

end Grammar

/-! ## Nodes that are made -/

/-- All nodes in the tree are made: the trees under each are given by a term that the grammar makes
nodes of its kind of. -/
inductive Match.IsMade (g : Grammar) : Match → Prop where
  | token {index kind part} : IsMade g (.token index kind part)
  | node {kind children t} : g.Makes kind t → g.Yields (.term t) children →
    (∀ c ∈ children, IsMade g c) → IsMade g (.node kind children)

variable {g : Grammar} {kind : Kind} {ns ms : List Match} {t : Term}

theorem Match.IsMade.exists_makes (h : (Match.node kind ns).IsMade g) :
    ∃ t, g.Makes kind t ∧ g.Yields (.term t) ns := by
  cases h with
  | node hmakes hyields => exact ⟨_, hmakes, hyields⟩

/-- What stands in a tree that is made is made. -/
theorem Match.IsMade.of_within {m n : Match} (hn : n.IsMade g) (h : m.Within n) : m.IsMade g := by
  induction h with
  | self => exact hn
  | inner hc _ ih =>
    cases hn with
    | node _ _ hchildren => exact ih (hchildren _ hc)

/-- A round more of a fold without a limit. -/
theorem Grammar.Yields.round {tails : List (Kind × Term)} {left : Option Nat} {done : List Match}
    (h : g.Yields (.rounds tails left done) ns) (hleft : left = none) (htail : (kind, t) ∈ tails)
    (ht : g.Yields (.term t) ms) : g.Yields (.rounds tails none done) [.node kind (ns ++ ms)] := by
  generalize hgoal : Goal.rounds tails left done = goal at h
  induction h generalizing left done with
  | rounds_end =>
    cases hgoal
    exact .rounds_more htail ht .rounds_end
  | rounds_more htail' ht' _ _ ih =>
    cases hgoal
    subst hleft
    exact .rounds_more htail' ht' (ih rfl rfl)
  | _ => cases hgoal

/-- What a fold gives, wrapped with what a tail gives, it gives too, if it has no limit. -/
theorem Grammar.Yields.fold_round {operand : Term} {tails : List (Kind × Term)}
    (h : g.Yields (.term (.fold operand tails none)) ns) (htail : (kind, t) ∈ tails)
    (ht : g.Yields (.term t) ms) :
    g.Yields (.term (.fold operand tails none)) [.node kind (ns ++ ms)] := by
  cases h with
  | fold hoperand hrounds => exact .fold hoperand (hrounds.round rfl htail ht)

/-- What a goal gives is made.  The rounds of a fold go on from trees that are made, and that the
fold can give. -/
def Goal.IsMade (g : Grammar) (ns : List Match) : Goal → Prop
  | .term t => g.Knows t → ∀ n ∈ ns, n.IsMade g
  | .rounds tails _ done => ∀ operand max, g.Knows (.fold operand tails max) →
      g.Yields (.term (.fold operand tails none)) done → (∀ n ∈ done, n.IsMade g) →
      ∀ n ∈ ns, n.IsMade g

/-- **All nodes that a grammar gives are made.** -/
theorem Grammar.Yields.isMade {goal : Goal} (h : g.Yields goal ns) : goal.IsMade g ns := by
  induction h with
  | token => exact fun _ n hn => List.mem_singleton.mp hn ▸ .token
  | split => exact fun _ n hn => List.mem_singleton.mp hn ▸ .token
  | word => exact fun _ n hn => List.mem_singleton.mp hn ▸ .token
  | any => exact fun _ n hn => List.mem_singleton.mp hn ▸ .token
  | ended => simp [Goal.IsMade]
  | seq_nil => simp [Goal.IsMade]
  | seq_cons _ _ ih₁ ih₂ =>
    intro hknows n hn
    have hrest : g.Knows (.seq _) := Term.every_iff.mpr ⟨fun kind body hmade => (by cases hmade),
      fun c hc => hknows.child (List.mem_cons_of_mem _ hc)⟩
    exact (List.mem_append.mp hn).elim (ih₁ (hknows.child (by simp [Term.children])) n)
      (ih₂ hrest n)
  | choice ht _ ih => exact fun hknows => ih (hknows.child ht)
  | opt_none => simp [Goal.IsMade]
  | opt_some _ ih => exact fun hknows => ih (hknows.child (by simp [Term.children]))
  | star_nil => simp [Goal.IsMade]
  | star_cons _ _ ih₁ ih₂ =>
    intro hknows n hn
    exact (List.mem_append.mp hn).elim (ih₁ (hknows.child (by simp [Term.children])) n)
      (ih₂ hknows n)
  | plus _ _ ih₁ ih₂ =>
    intro hknows n hn
    have hrest : g.Knows (.star _) := Term.every_iff.mpr ⟨fun kind body hmade => (by cases hmade),
      fun c hc => hknows.child hc⟩
    exact (List.mem_append.mp hn).elim (ih₁ (hknows.child (by simp [Term.children])) n)
      (ih₂ hrest n)
  | ahead => simp [Goal.IsMade]
  | notAhead => simp [Goal.IsMade]
  | @ref r id rule ns hr hrule hbody ih =>
    intro _
    have hns := ih (Grammar.knows_body hrule)
    rw [Rule.close]
    split
    · next kind hkind =>
      intro n hn
      obtain rfl := List.mem_singleton.mp hn
      exact .node (.rule hrule hkind) hbody hns
    · exact hns
  | node hbody ih =>
    intro hknows n hn
    obtain rfl := List.mem_singleton.mp hn
    exact .node (hknows.self _ _ (List.mem_singleton.mpr rfl)) hbody
      (ih (hknows.child (by simp [Term.children])))
  | scope _ ih => exact fun hknows => ih (hknows.child (by simp [Term.children]))
  | gate _ ih => exact fun hknows => ih (hknows.child (by simp [Term.children]))
  | @fold operand tails max ns ms hoperand _ ih₁ ih₂ =>
    intro hknows
    exact ih₂ operand max hknows (.fold hoperand .rounds_end)
      (ih₁ (hknows.child List.mem_cons_self))
  | rounds_end => exact fun _ _ _ _ hdone => hdone
  | @rounds_more tails left done kind t ns ms htail hbody _ ih₁ ih₂ =>
    intro operand max hknows hyields hdone
    have htails : t ∈ (Term.fold operand tails max).children :=
      List.mem_cons_of_mem _ (List.mem_map_of_mem htail)
    have hmakes : g.Makes kind (.seq [.fold operand tails none, t]) :=
      hknows.self _ _ (List.mem_map_of_mem htail)
    refine ih₂ operand max hknows (hyields.fold_round htail hbody) fun n hn => ?_
    obtain rfl := List.mem_singleton.mp hn
    -- a sequence of the fold and the tail gives what stands under the node
    have hseq := hyields.seq_cons (hbody.seq_cons .seq_nil)
    rw [List.append_nil] at hseq
    exact .node hmakes hseq fun c hc => (List.mem_append.mp hc).elim (hdone c)
      (ih₁ (hknows.child htails) c)

end Peg
end Packrat
