/-
# The plain meaning of terms

What a term makes of a place, told without a memo table, an output to cut back, limits or
fuel.  `Parses m flags goal pos answer` is a relation with one rule or two for each
constructor; it threads the place and the flags and nothing else.

| term | answer |
| --- | --- |
| `seq`, `choice` | trees side by side; the first alternative that matches |
| `opt`, `star`, `plus` | a failure is a match of nothing; an empty round ends a repetition |
| `ahead`, `notAhead` | the place stays, and no tree is kept |
| `ref` | what the body of the rule answers, under the rule's node |
| `node`, `scoped`, `gate` | what the body answers, under a node or other flags, or nothing |
| `fold` | the operand's trees; each tail that matches wraps all before it |

The rounds of a fold are a goal of their own, with the trees gathered so far and the number
of rounds that are left.  In a round the tails are tried like alternatives, each under a
node of its kind.

The answer is a function of the goal (`Parses.unique`), but not a total one: a repetition
or a rule need not come to an end.
-/

import Packrat.Proofs.Peg.Terminal

namespace Packrat
namespace Peg

/-- A term, or the rounds of a fold: its tails, how many rounds are left, and the trees
gathered so far. -/
inductive Goal where
  | term (t : Term)
  | rounds (tails : List (Kind × Term)) (left : Option Nat) (done : List Match)

/-- What a rule makes of the trees that its body matched. -/
def Rule.close (rule : Rule) (ns : List Match) : List Match :=
  match rule.kind with
  | some kind => [.node kind ns]
  | none => ns

/-- The tails of a fold as alternatives, each under a node of its kind. -/
def Term.ofTails (tails : List (Kind × Term)) : Term :=
  .choice (tails.map fun tail => .node tail.1 tail.2)

/-- The trees of an answer, changed by `f`. -/
def Answer.mapTrees (f : List Match → List Match) (a : Answer) : Answer :=
  a.map fun r => (f r.1, r.2)

/-- The answer to a goal at a place under some flags. -/
inductive Parses (m : Machine) : Flags → Goal → Pos → Answer → Prop where
  | terminal {f t pos} : t.isTerminal = true → Parses m f (.term t) pos (m.read? pos t)
  | seq_nil {f pos} : Parses m f (.term (.seq [])) pos (some ([], pos))
  | seq_fail {f t ts pos} :
    Parses m f (.term t) pos none → Parses m f (.term (.seq (t :: ts))) pos none
  | seq_cons {f t ts pos ns mid a} :
    Parses m f (.term t) pos (some (ns, mid)) → Parses m f (.term (.seq ts)) mid a →
    Parses m f (.term (.seq (t :: ts))) pos (a.mapTrees (ns ++ ·))
  | choice_nil {f pos} : Parses m f (.term (.choice [])) pos none
  | choice_here {f t ts pos r} :
    Parses m f (.term t) pos (some r) → Parses m f (.term (.choice (t :: ts))) pos (some r)
  | choice_next {f t ts pos a} :
    Parses m f (.term t) pos none → Parses m f (.term (.choice ts)) pos a →
    Parses m f (.term (.choice (t :: ts))) pos a
  | opt {f t pos a} :
    Parses m f (.term t) pos a → Parses m f (.term (.opt t)) pos (some (a.getD ([], pos)))
  | star_fail {f t pos} :
    Parses m f (.term t) pos none → Parses m f (.term (.star t)) pos (some ([], pos))
  | star_empty {f t pos ns} :
    Parses m f (.term t) pos (some (ns, pos)) → Parses m f (.term (.star t)) pos (some ([], pos))
  | star_more {f t pos ns mid a} :
    Parses m f (.term t) pos (some (ns, mid)) → mid ≠ pos → Parses m f (.term (.star t)) mid a →
    Parses m f (.term (.star t)) pos (a.mapTrees (ns ++ ·))
  | plus_fail {f t pos} :
    Parses m f (.term t) pos none → Parses m f (.term (.plus t)) pos none
  | plus_more {f t pos ns mid a} :
    Parses m f (.term t) pos (some (ns, mid)) → Parses m f (.term (.star t)) mid a →
    Parses m f (.term (.plus t)) pos (a.mapTrees (ns ++ ·))
  | ahead {f t pos a} :
    Parses m f (.term t) pos a →
    Parses m f (.term (.ahead t)) pos (a.map fun _ => ([], pos))
  | notAhead {f t pos a} :
    Parses m f (.term t) pos a →
    Parses m f (.term (.notAhead t)) pos (if a.isSome then none else some ([], pos))
  | ref_none {f r pos} :
    m.grammar.resolve? r = none → Parses m f (.term (.ref r)) pos none
  | ref_rule {f r id rule pos a} :
    m.grammar.resolve? r = some id → m.grammar.rules[id]? = some rule →
    Parses m f (.term rule.body) pos a →
    Parses m f (.term (.ref r)) pos (a.mapTrees rule.close)
  | node {f kind t pos a} :
    Parses m f (.term t) pos a →
    Parses m f (.term (.node kind t)) pos (a.mapTrees fun ns => [.node kind ns])
  | scope {f set clear t pos a} :
    Parses m ((f.union set).diff clear) (.term t) pos a →
    Parses m f (.term (.scoped set clear t)) pos a
  | gate_open {f flags whenSet t pos a} :
    f.intersects flags = whenSet → Parses m f (.term t) pos a →
    Parses m f (.term (.gate flags whenSet t)) pos a
  | gate_shut {f flags whenSet t pos} :
    f.intersects flags ≠ whenSet → Parses m f (.term (.gate flags whenSet t)) pos none
  | fold_fail {f operand tails max pos} :
    Parses m f (.term operand) pos none → Parses m f (.term (.fold operand tails max)) pos none
  | fold_rounds {f operand tails max pos ns mid a} :
    Parses m f (.term operand) pos (some (ns, mid)) →
    Parses m f (.rounds tails max ns) mid a →
    Parses m f (.term (.fold operand tails max)) pos a
  | rounds_spent {f tails pos ns} :
    Parses m f (.rounds tails (some 0) ns) pos (some (ns, pos))
  | rounds_end {f tails left pos ns} :
    left ≠ some 0 → Parses m f (.term (.ofTails tails)) pos none →
    Parses m f (.rounds tails left ns) pos (some (ns, pos))
  | rounds_more {f tails left pos ns kind ms mid a} :
    left ≠ some 0 → Parses m f (.term (.ofTails tails)) pos (some ([.node kind ms], mid)) →
    Parses m f (.rounds tails (left.map (· - 1)) [.node kind (ns ++ ms)]) mid a →
    Parses m f (.rounds tails left ns) pos a

namespace Parses

variable {m : Machine} {f : Flags} {goal : Goal} {pos : Pos} {a b : Answer}

/-- **A goal has one answer.** -/
theorem unique (h : Parses m f goal pos a) (h' : Parses m f goal pos b) : a = b := by
  induction h generalizing b with
  | terminal ht => cases h' with
    | terminal => rfl
    | _ => cases ht
  | seq_nil => cases h' with
    | terminal ht => cases ht
    | seq_nil => rfl
  | seq_fail _ ih => cases h' with
    | terminal ht => cases ht
    | seq_fail => rfl
    | seq_cons h₁ => cases ih h₁
  | seq_cons _ _ ih₁ ih₂ => cases h' with
    | terminal ht => cases ht
    | seq_fail h₁ => cases ih₁ h₁
    | seq_cons h₁ h₂ => cases ih₁ h₁; rw [ih₂ h₂]
  | choice_nil => cases h' with
    | terminal ht => cases ht
    | choice_nil => rfl
  | choice_here _ ih => cases h' with
    | terminal ht => cases ht
    | choice_here h₁ => exact ih h₁
    | choice_next h₁ => cases ih h₁
  | choice_next _ _ ih₁ ih₂ => cases h' with
    | terminal ht => cases ht
    | choice_here h₁ => cases ih₁ h₁
    | choice_next _ h₂ => exact ih₂ h₂
  | opt _ ih => cases h' with
    | terminal ht => cases ht
    | opt h₁ => rw [ih h₁]
  | star_fail _ ih => cases h' with
    | terminal ht => cases ht
    | star_fail => rfl
    | star_empty => rfl
    | star_more h₁ => cases ih h₁
  | star_empty _ ih => cases h' with
    | terminal ht => cases ht
    | star_fail => rfl
    | star_empty => rfl
    | star_more h₁ hne => cases ih h₁; exact absurd rfl hne
  | star_more _ hne _ ih₁ ih₂ => cases h' with
    | terminal ht => cases ht
    | star_fail h₁ => cases ih₁ h₁
    | star_empty h₁ => cases ih₁ h₁; exact absurd rfl hne
    | star_more h₁ _ h₂ => cases ih₁ h₁; rw [ih₂ h₂]
  | plus_fail _ ih => cases h' with
    | terminal ht => cases ht
    | plus_fail => rfl
    | plus_more h₁ => cases ih h₁
  | plus_more _ _ ih₁ ih₂ => cases h' with
    | terminal ht => cases ht
    | plus_fail h₁ => cases ih₁ h₁
    | plus_more h₁ h₂ => cases ih₁ h₁; rw [ih₂ h₂]
  | ahead _ ih => cases h' with
    | terminal ht => cases ht
    | ahead h₁ => rw [ih h₁]
  | notAhead _ ih => cases h' with
    | terminal ht => cases ht
    | notAhead h₁ => rw [ih h₁]
  | ref_none hr => cases h' with
    | terminal ht => cases ht
    | ref_none => rfl
    | ref_rule hr' => rw [hr] at hr'; cases hr'
  | ref_rule hr hrule _ ih => cases h' with
    | terminal ht => cases ht
    | ref_none hr' => rw [hr] at hr'; cases hr'
    | ref_rule hr' hrule' h₁ =>
      rw [hr] at hr'
      cases hr'
      rw [hrule] at hrule'
      cases hrule'
      rw [ih h₁]
  | node _ ih => cases h' with
    | terminal ht => cases ht
    | node h₁ => rw [ih h₁]
  | scope _ ih => cases h' with
    | terminal ht => cases ht
    | scope h₁ => exact ih h₁
  | gate_open hopen _ ih => cases h' with
    | terminal ht => cases ht
    | gate_open _ h₁ => exact ih h₁
    | gate_shut hshut => exact absurd hopen hshut
  | gate_shut hshut => cases h' with
    | terminal ht => cases ht
    | gate_open hopen => exact absurd hopen hshut
    | gate_shut => rfl
  | fold_fail _ ih => cases h' with
    | terminal ht => cases ht
    | fold_fail => rfl
    | fold_rounds h₁ => cases ih h₁
  | fold_rounds _ _ ih₁ ih₂ => cases h' with
    | terminal ht => cases ht
    | fold_fail h₁ => cases ih₁ h₁
    | fold_rounds h₁ h₂ => cases ih₁ h₁; exact ih₂ h₂
  | rounds_spent => cases h' with
    | rounds_spent => rfl
    | rounds_end hleft => exact absurd rfl hleft
    | rounds_more hleft => exact absurd rfl hleft
  | rounds_end hleft _ ih => cases h' with
    | rounds_spent => exact absurd rfl hleft
    | rounds_end => rfl
    | rounds_more _ h₁ => cases ih h₁
  | rounds_more hleft _ _ ih₁ ih₂ => cases h' with
    | rounds_spent => exact absurd rfl hleft
    | rounds_end _ h₁ => cases ih₁ h₁
    | rounds_more _ h₁ h₂ => cases ih₁ h₁; exact ih₂ h₂

/-! ## Tokens -/

variable {kind : Kind}

theorem token (h : m.kindAt pos = kind) :
    Parses m f (.term (.token kind)) pos (some (m.leafAt pos kind)) := by
  have hread : m.read? pos (.token kind) = some (m.leafAt pos kind) := if_pos h
  exact hread ▸ .terminal rfl

theorem no_token (h : m.kindAt pos ≠ kind) : Parses m f (.term (.token kind)) pos none := by
  have hread : m.read? pos (.token kind) = none := if_neg h
  exact hread ▸ .terminal rfl

/-- Terms that begin with a token that is not there. -/
theorem seq_no_token {ts : List Term} (h : m.kindAt pos ≠ kind) :
    Parses m f (.term (.seq (.token kind :: ts))) pos none :=
  .seq_fail (no_token h)

/-- The only alternative that may match. -/
theorem choice_only {t : Term} {ts : List Term} (h : Parses m f (.term t) pos a)
    (hrest : Parses m f (.term (.choice ts)) pos none) :
    Parses m f (.term (.choice (t :: ts))) pos a := by
  cases a with
  | none => exact .choice_next h hrest
  | some r => exact .choice_here h

/-! ## Matches taken apart -/

variable {t : Term} {ns : List Match} {stop : Pos}

theorem node_eq {kind : Kind} (h : Parses m f (.term (.node kind t)) pos (some (ns, stop))) :
    ∃ ms, ns = [.node kind ms] := by
  generalize ha : some (ns, stop) = a at h
  cases h with
  | terminal ht => cases ht
  | node hbody =>
    obtain ⟨r, -, hr⟩ := Option.map_eq_some_iff.mp ha.symm
    cases hr
    exact ⟨_, rfl⟩

theorem body_of_scoped {set unset : Flags} (h : Parses m f (.term (.scoped set unset t)) pos a) :
    Parses m ((f.union set).diff unset) (.term t) pos a := by
  cases h with
  | terminal ht => cases ht
  | scope hbody => exact hbody

/-- What a rule matches is what its body matches, closed. -/
theorem exists_body {r : RuleRef} (h : Parses m f (.term (.ref r)) pos (some (ns, stop))) :
    ∃ id rule ms, m.grammar.resolve? r = some id ∧ m.grammar.rules[id]? = some rule ∧
      ns = rule.close ms ∧ Parses m f (.term rule.body) pos (some (ms, stop)) := by
  generalize ha : some (ns, stop) = a at h
  cases h with
  | terminal ht => cases ht
  | ref_none => cases ha
  | ref_rule hid hrule hbody =>
    obtain ⟨r, rfl, hr⟩ := Option.map_eq_some_iff.mp ha.symm
    cases hr
    exact ⟨_, _, _, hid, hrule, rfl, hbody⟩

/-- The first item of a sequence matches, and so do the others behind it. -/
theorem exists_first {ts : List Term}
    (h : Parses m f (.term (.seq (t :: ts))) pos (some (ns, stop))) :
    ∃ first mid rest, ns = first ++ rest ∧ Parses m f (.term t) pos (some (first, mid)) ∧
      Parses m f (.term (.seq ts)) mid (some (rest, stop)) := by
  generalize ha : some (ns, stop) = a at h
  cases h with
  | terminal ht => cases ht
  | seq_fail => cases ha
  | seq_cons hfirst hrest =>
    obtain ⟨r, rfl, hr⟩ := Option.map_eq_some_iff.mp ha.symm
    cases hr
    exact ⟨_, _, _, rfl, hfirst, hrest⟩

/-- The last item of a sequence matches up to where the sequence stops. -/
theorem exists_last {ts : List Term} (hlast : ts.getLast? = some t)
    (h : Parses m f (.term (.seq ts)) pos (some (ns, stop))) :
    ∃ front mid last, ns = front ++ last ∧ Parses m f (.term t) mid (some (last, stop)) := by
  induction ts generalizing pos ns with
  | nil => cases hlast
  | cons t' ts ih =>
    obtain ⟨first, mid, rest, rfl, hfirst, hrest⟩ := h.exists_first
    cases ts with
    | nil =>
      obtain rfl : t' = t := by simpa using hlast
      cases hrest with
      | seq_nil => exact ⟨[], pos, first, by simp, hfirst⟩
    | cons t'' ts =>
      obtain ⟨front, mid', last, rfl, hparses⟩ := ih (by simpa using hlast) hrest
      exact ⟨first ++ front, mid', last, (List.append_assoc ..).symm, hparses⟩

/-- What the tails of a fold match stands under the node of one of them. -/
theorem exists_tail {tails : List (Kind × Term)}
    (h : Parses m f (.term (.ofTails tails)) pos (some (ns, stop))) :
    ∃ tail ∈ tails, ∃ ms, ns = [.node tail.1 ms] := by
  induction tails with
  | nil => cases h
  | cons tail tails ih =>
    cases h with
    | choice_here hnode =>
      obtain ⟨ms, rfl⟩ := hnode.node_eq
      exact ⟨tail, List.mem_cons_self, ms, rfl⟩
    | choice_next _ hrest =>
      obtain ⟨tail', htail, hms⟩ := ih hrest
      exact ⟨tail', List.mem_cons_of_mem _ htail, hms⟩

end Parses
end Peg
end Packrat
