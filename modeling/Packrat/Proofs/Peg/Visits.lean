/-
# What answering comes to

Answering a goal calls for other answers first: those of the goals inside it, as far as what
stands before them matches (`Machine.Calls`).

| goal | calls |
| --- | --- |
| `seq` | the first item, and the others behind its match |
| `choice` | the first alternative, and the others if it fails |
| `star`, `plus`, `fold` | each round behind the last |
| `ref` | the body of the rule |
| `opt`, `ahead`, `notAhead`, `node`, `scoped`, `gate` | the body, if the gate is open |

What a goal asks for in vain are the terminals that it comes to in this way and that do not
match (`Machine.Asks`).  Which calls there are is decided by the answers, so for each
constructor and answer they can be listed.
-/

import Mathlib.Logic.Relation
import Packrat.Proofs.Peg.Plain

namespace Packrat
namespace Peg

/-- A goal at a place under some flags. -/
structure Task where
  flags : Flags
  goal : Goal
  pos : Pos

namespace Machine

/-- To answer the first task, the second one is answered. -/
inductive Calls (m : Machine) : Task → Task → Prop where
  | seq_head {f t ts pos} : Calls m ⟨f, .term (.seq (t :: ts)), pos⟩ ⟨f, .term t, pos⟩
  | seq_tail {f t ts pos ns mid} : Parses m f (.term t) pos (some (ns, mid)) →
    Calls m ⟨f, .term (.seq (t :: ts)), pos⟩ ⟨f, .term (.seq ts), mid⟩
  | choice_head {f t ts pos} : Calls m ⟨f, .term (.choice (t :: ts)), pos⟩ ⟨f, .term t, pos⟩
  | choice_tail {f t ts pos} : Parses m f (.term t) pos none →
    Calls m ⟨f, .term (.choice (t :: ts)), pos⟩ ⟨f, .term (.choice ts), pos⟩
  | opt {f t pos} : Calls m ⟨f, .term (.opt t), pos⟩ ⟨f, .term t, pos⟩
  | star_round {f t pos} : Calls m ⟨f, .term (.star t), pos⟩ ⟨f, .term t, pos⟩
  | star_more {f t pos ns mid} : Parses m f (.term t) pos (some (ns, mid)) → mid ≠ pos →
    Calls m ⟨f, .term (.star t), pos⟩ ⟨f, .term (.star t), mid⟩
  | plus_round {f t pos} : Calls m ⟨f, .term (.plus t), pos⟩ ⟨f, .term t, pos⟩
  | plus_more {f t pos ns mid} : Parses m f (.term t) pos (some (ns, mid)) →
    Calls m ⟨f, .term (.plus t), pos⟩ ⟨f, .term (.star t), mid⟩
  | ahead {f t pos} : Calls m ⟨f, .term (.ahead t), pos⟩ ⟨f, .term t, pos⟩
  | notAhead {f t pos} : Calls m ⟨f, .term (.notAhead t), pos⟩ ⟨f, .term t, pos⟩
  | ref {f r id rule pos} : m.grammar.resolve? r = some id → m.grammar.rules[id]? = some rule →
    Calls m ⟨f, .term (.ref r), pos⟩ ⟨f, .term rule.body, pos⟩
  | node {f kind t pos} : Calls m ⟨f, .term (.node kind t), pos⟩ ⟨f, .term t, pos⟩
  | scope {f set clear t pos} :
    Calls m ⟨f, .term (.scoped set clear t), pos⟩ ⟨(f.union set).diff clear, .term t, pos⟩
  | gate {f flags whenSet t pos} : f.intersects flags = whenSet →
    Calls m ⟨f, .term (.gate flags whenSet t), pos⟩ ⟨f, .term t, pos⟩
  | operand {f t tails max pos} : Calls m ⟨f, .term (.fold t tails max), pos⟩ ⟨f, .term t, pos⟩
  | rounds {f t tails max pos ns mid} : Parses m f (.term t) pos (some (ns, mid)) →
    Calls m ⟨f, .term (.fold t tails max), pos⟩ ⟨f, .rounds tails max ns, mid⟩
  | tails {f tails left pos ns} : left ≠ some 0 →
    Calls m ⟨f, .rounds tails left ns, pos⟩ ⟨f, .term (.ofTails tails), pos⟩
  | more {f tails left pos ns kind ms mid} : left ≠ some 0 →
    Parses m f (.term (.ofTails tails)) pos (some ([.node kind ms], mid)) →
    Calls m ⟨f, .rounds tails left ns, pos⟩
      ⟨f, .rounds tails (left.map (· - 1)) [.node kind (ns ++ ms)], mid⟩

variable (m : Machine)

/-- Answering the first task comes to the second one. -/
def Visits : Task → Task → Prop := Relation.ReflTransGen m.Calls

/-- Answering a task asks for something at a place in vain. -/
def Asks (task : Task) (q : Pos) (what : Expected) : Prop :=
  ∃ f u, m.Visits task ⟨f, .term u, q⟩ ∧ u.asks? = some what ∧ m.read? q u = none

variable {m}

/-- What a task asks for, the tasks that call it ask for. -/
theorem Asks.call {task task' : Task} {q : Pos} {what : Expected} (h : m.Asks task' q what)
    (hcall : m.Calls task task') : m.Asks task q what := by
  obtain ⟨f, u, hvisit, hask⟩ := h
  exact ⟨f, u, .head hcall hvisit, hask⟩

/-- What a task asks for that is no terminal, one of its calls asks for. -/
theorem Asks.exists_call {task : Task} {q : Pos} {what : Expected} (h : m.Asks task q what)
    (htask : ∀ t, task.goal = .term t → t.asks? = none) :
    ∃ task', m.Calls task task' ∧ m.Asks task' q what := by
  obtain ⟨f, u, hvisit, hask, hnone⟩ := h
  rcases Relation.ReflTransGen.cases_head hvisit with rfl | ⟨task', hcall, hvisit⟩
  · rw [htask u rfl] at hask
    cases hask
  · exact ⟨task', hcall, f, u, hvisit, hask, hnone⟩

/-! ## The calls of a task -/

variable {f : Flags} {t : Term} {ts : List Term} {tails : List (Kind × Term)} {max : Option Nat}
  {pos mid : Pos} {ns ms : List Match} {kind : Kind} {task : Task}

/-- Terminals call nothing. -/
theorem not_calls_terminal (ht : t.isTerminal = true) : ¬ m.Calls ⟨f, .term t, pos⟩ task := by
  intro h
  cases h <;> cases ht

theorem calls_seq_nil :
    m.Calls ⟨f, .term (.seq []), pos⟩ task ↔ task ∈ ([] : List Task) := by
  constructor
  · intro h
    cases h
  · rintro ⟨⟩

theorem calls_seq_of_none (h : Parses m f (.term t) pos none) :
    m.Calls ⟨f, .term (.seq (t :: ts)), pos⟩ task ↔ task ∈ [(⟨f, .term t, pos⟩ : Task)] := by
  constructor
  · intro hcall
    cases hcall with
    | seq_head => exact List.mem_singleton_self _
    | seq_tail hmatch => cases h.unique hmatch
  · intro htask
    obtain rfl := List.mem_singleton.mp htask
    exact .seq_head

theorem calls_seq_of_some (h : Parses m f (.term t) pos (some (ns, mid))) :
    m.Calls ⟨f, .term (.seq (t :: ts)), pos⟩ task ↔
      task ∈ [(⟨f, .term t, pos⟩ : Task), ⟨f, .term (.seq ts), mid⟩] := by
  constructor
  · intro hcall
    cases hcall with
    | seq_head => simp
    | seq_tail hmatch =>
      cases h.unique hmatch
      simp
  · intro htask
    rcases List.mem_cons.mp htask with rfl | htask
    · exact .seq_head
    · obtain rfl := List.mem_singleton.mp htask
      exact .seq_tail h

theorem calls_choice_nil :
    m.Calls ⟨f, .term (.choice []), pos⟩ task ↔ task ∈ ([] : List Task) := by
  constructor
  · intro h
    cases h
  · rintro ⟨⟩

theorem calls_choice_of_some (h : Parses m f (.term t) pos (some (ns, mid))) :
    m.Calls ⟨f, .term (.choice (t :: ts)), pos⟩ task ↔ task ∈ [(⟨f, .term t, pos⟩ : Task)] := by
  constructor
  · intro hcall
    cases hcall with
    | choice_head => exact List.mem_singleton_self _
    | choice_tail hfail => cases h.unique hfail
  · intro htask
    obtain rfl := List.mem_singleton.mp htask
    exact .choice_head

theorem calls_choice_of_none (h : Parses m f (.term t) pos none) :
    m.Calls ⟨f, .term (.choice (t :: ts)), pos⟩ task ↔
      task ∈ [(⟨f, .term t, pos⟩ : Task), ⟨f, .term (.choice ts), pos⟩] := by
  constructor
  · intro hcall
    cases hcall with
    | choice_head => simp
    | choice_tail => simp
  · intro htask
    rcases List.mem_cons.mp htask with rfl | htask
    · exact .choice_head
    · obtain rfl := List.mem_singleton.mp htask
      exact .choice_tail h

theorem calls_opt :
    m.Calls ⟨f, .term (.opt t), pos⟩ task ↔ task ∈ [(⟨f, .term t, pos⟩ : Task)] := by
  constructor
  · intro hcall
    cases hcall with
    | opt => exact List.mem_singleton_self _
  · intro htask
    obtain rfl := List.mem_singleton.mp htask
    exact .opt

theorem calls_ahead :
    m.Calls ⟨f, .term (.ahead t), pos⟩ task ↔ task ∈ [(⟨f, .term t, pos⟩ : Task)] := by
  constructor
  · intro hcall
    cases hcall with
    | ahead => exact List.mem_singleton_self _
  · intro htask
    obtain rfl := List.mem_singleton.mp htask
    exact .ahead

theorem calls_node :
    m.Calls ⟨f, .term (.node kind t), pos⟩ task ↔ task ∈ [(⟨f, .term t, pos⟩ : Task)] := by
  constructor
  · intro hcall
    cases hcall with
    | node => exact List.mem_singleton_self _
  · intro htask
    obtain rfl := List.mem_singleton.mp htask
    exact .node

theorem calls_scoped {set clear : Flags} :
    m.Calls ⟨f, .term (.scoped set clear t), pos⟩ task ↔
      task ∈ [(⟨(f.union set).diff clear, .term t, pos⟩ : Task)] := by
  constructor
  · intro hcall
    cases hcall with
    | scope => exact List.mem_singleton_self _
  · intro htask
    obtain rfl := List.mem_singleton.mp htask
    exact .scope

theorem calls_gate_of_open {flags : Flags} {whenSet : Bool} (h : f.intersects flags = whenSet) :
    m.Calls ⟨f, .term (.gate flags whenSet t), pos⟩ task ↔ task ∈ [(⟨f, .term t, pos⟩ : Task)] := by
  constructor
  · intro hcall
    cases hcall with
    | gate => exact List.mem_singleton_self _
  · intro htask
    obtain rfl := List.mem_singleton.mp htask
    exact .gate h

theorem calls_gate_of_shut {flags : Flags} {whenSet : Bool} (h : f.intersects flags ≠ whenSet) :
    m.Calls ⟨f, .term (.gate flags whenSet t), pos⟩ task ↔ task ∈ ([] : List Task) := by
  constructor
  · intro hcall
    cases hcall with
    | gate hopen => exact absurd hopen h
  · rintro ⟨⟩

/-- A repetition that ends with this round: it fails, or stays at its place. -/
theorem calls_star_of_end
    (h : ∀ ns mid, Parses m f (.term t) pos (some (ns, mid)) → mid = pos) :
    m.Calls ⟨f, .term (.star t), pos⟩ task ↔ task ∈ [(⟨f, .term t, pos⟩ : Task)] := by
  constructor
  · intro hcall
    cases hcall with
    | star_round => exact List.mem_singleton_self _
    | star_more hmatch hne => exact absurd (h _ _ hmatch) hne
  · intro htask
    obtain rfl := List.mem_singleton.mp htask
    exact .star_round

theorem calls_star_of_some (h : Parses m f (.term t) pos (some (ns, mid)))
    (hne : mid ≠ pos) :
    m.Calls ⟨f, .term (.star t), pos⟩ task ↔
      task ∈ [(⟨f, .term t, pos⟩ : Task), ⟨f, .term (.star t), mid⟩] := by
  constructor
  · intro hcall
    cases hcall with
    | star_round => simp
    | star_more hmatch =>
      cases h.unique hmatch
      simp
  · intro htask
    rcases List.mem_cons.mp htask with rfl | htask
    · exact .star_round
    · obtain rfl := List.mem_singleton.mp htask
      exact .star_more h hne

theorem calls_plus_of_none (h : Parses m f (.term t) pos none) :
    m.Calls ⟨f, .term (.plus t), pos⟩ task ↔ task ∈ [(⟨f, .term t, pos⟩ : Task)] := by
  constructor
  · intro hcall
    cases hcall with
    | plus_round => exact List.mem_singleton_self _
    | plus_more hmatch => cases h.unique hmatch
  · intro htask
    obtain rfl := List.mem_singleton.mp htask
    exact .plus_round

theorem calls_plus_of_some (h : Parses m f (.term t) pos (some (ns, mid))) :
    m.Calls ⟨f, .term (.plus t), pos⟩ task ↔
      task ∈ [(⟨f, .term t, pos⟩ : Task), ⟨f, .term (.star t), mid⟩] := by
  constructor
  · intro hcall
    cases hcall with
    | plus_round => simp
    | plus_more hmatch =>
      cases h.unique hmatch
      simp
  · intro htask
    rcases List.mem_cons.mp htask with rfl | htask
    · exact .plus_round
    · obtain rfl := List.mem_singleton.mp htask
      exact .plus_more h

theorem calls_ref_of_none {r : RuleRef} (h : m.grammar.resolve? r = none) :
    m.Calls ⟨f, .term (.ref r), pos⟩ task ↔ task ∈ ([] : List Task) := by
  constructor
  · intro hcall
    cases hcall with
    | ref hid => cases h.symm.trans hid
  · rintro ⟨⟩

theorem calls_ref {r : RuleRef} {id : Nat} {rule : Rule} (hid : m.grammar.resolve? r = some id)
    (hrule : m.grammar.rules[id]? = some rule) :
    m.Calls ⟨f, .term (.ref r), pos⟩ task ↔ task ∈ [(⟨f, .term rule.body, pos⟩ : Task)] := by
  constructor
  · intro hcall
    cases hcall with
    | ref hid' hrule' =>
      cases hid.symm.trans hid'
      cases hrule.symm.trans hrule'
      exact List.mem_singleton_self _
  · intro htask
    obtain rfl := List.mem_singleton.mp htask
    exact .ref hid hrule

theorem calls_fold_of_none (h : Parses m f (.term t) pos none) :
    m.Calls ⟨f, .term (.fold t tails max), pos⟩ task ↔ task ∈ [(⟨f, .term t, pos⟩ : Task)] := by
  constructor
  · intro hcall
    cases hcall with
    | operand => exact List.mem_singleton_self _
    | rounds hmatch => cases h.unique hmatch
  · intro htask
    obtain rfl := List.mem_singleton.mp htask
    exact .operand

theorem calls_fold_of_some (h : Parses m f (.term t) pos (some (ns, mid))) :
    m.Calls ⟨f, .term (.fold t tails max), pos⟩ task ↔
      task ∈ [(⟨f, .term t, pos⟩ : Task), ⟨f, .rounds tails max ns, mid⟩] := by
  constructor
  · intro hcall
    cases hcall with
    | operand => simp
    | rounds hmatch =>
      cases h.unique hmatch
      simp
  · intro htask
    rcases List.mem_cons.mp htask with rfl | htask
    · exact .operand
    · obtain rfl := List.mem_singleton.mp htask
      exact .rounds h

theorem calls_rounds_spent :
    m.Calls ⟨f, .rounds tails (some 0) ns, pos⟩ task ↔ task ∈ ([] : List Task) := by
  constructor
  · intro hcall
    cases hcall with
    | tails hleft => exact absurd rfl hleft
    | more hleft => exact absurd rfl hleft
  · rintro ⟨⟩

theorem calls_rounds_of_none (hleft : max ≠ some 0)
    (h : Parses m f (.term (.ofTails tails)) pos none) :
    m.Calls ⟨f, .rounds tails max ns, pos⟩ task ↔
      task ∈ [(⟨f, .term (.ofTails tails), pos⟩ : Task)] := by
  constructor
  · intro hcall
    cases hcall with
    | tails => exact List.mem_singleton_self _
    | more _ hmatch => cases h.unique hmatch
  · intro htask
    obtain rfl := List.mem_singleton.mp htask
    exact .tails hleft

theorem calls_rounds_of_some (hleft : max ≠ some 0)
    (h : Parses m f (.term (.ofTails tails)) pos (some ([.node kind ms], mid))) :
    m.Calls ⟨f, .rounds tails max ns, pos⟩ task ↔
      task ∈ [(⟨f, .term (.ofTails tails), pos⟩ : Task),
        ⟨f, .rounds tails (max.map (· - 1)) [.node kind (ns ++ ms)], mid⟩] := by
  constructor
  · intro hcall
    cases hcall with
    | tails => simp
    | more _ hmatch =>
      cases h.unique hmatch
      simp
  · intro htask
    rcases List.mem_cons.mp htask with rfl | htask
    · exact .tails hleft
    · obtain rfl := List.mem_singleton.mp htask
      exact .more hleft h

end Machine
end Peg
end Packrat
