/-
# Rungs of the operator ladder

How tightly a tree binds is a number, its rung:

| rung | trees |
| --- | --- |
| 0 | assignments |
| 1 | ranges |
| 2 to 10 | the other levels of binary operators, the loosest first |
| 11 | casts |
| 12 | prefix operators and references |
| 13 | postfix forms |
| 14 | all other trees |

A rule of the ladder matches one node, not below a rung of its own (`ladderRung?`).  From this
and from the bodies of the rules it can be seen what a term matches: some words of *forms*,
each a token of a kind or a node from a rung on (`Grammar.shape`).  What stands under an
operator's node must be such that no operand binds more loosely than its place allows
(`wordFits`).  That all rules keep to this is seen by looking at them once
(`isLadder_grammar`); that matches then do is `Parses.shows`.
-/

import Mathlib.Data.List.Forall2
import Packrat.Proofs.Language.Grammar

namespace Packrat
namespace Language

open Peg

/-! ## Rungs -/

/-- The level of a binary operator, counted from the loosest. -/
def level? (op : Kind) : Option Nat := levels.findIdx? (·.operators.contains op)

/-- The rung of a level: ranges stand between the assignments and the other levels. -/
def levelRung (level : Nat) : Nat := if level = 0 then 0 else level + 1

theorem levelRung_lt_iff {L M : Nat} : levelRung L < levelRung M ↔ L < M := by
  unfold levelRung
  split <;> split <;> omega

theorem levelRung_le_iff {L M : Nat} : levelRung L ≤ levelRung M ↔ L ≤ M := by
  unfold levelRung
  split <;> split <;> omega

/-- The rung of nodes of a kind; of binary operators the lowest. -/
def kindRung : Kind → Nat
  | .binExpr => 0
  | .rangeExpr | .rangeFromExpr | .rangeToExpr | .rangeFullExpr => 1
  | .castExpr => 11
  | .prefixExpr | .refExpr => 12
  | .callExpr | .methodCallExpr | .fieldExpr | .indexExpr | .awaitExpr | .tryExpr => 13
  | _ => 14

/-- Nodes of the kind have operands, which may not bind too loosely. -/
def hasOperands (kind : Kind) : Bool := kindRung kind < 14 && kind != .rangeFullExpr

/-- The rung below which the left operand of a level may not be. -/
def leftRung (level : Nat) : Nat :=
  if levels[level]?.any (·.assoc = .left) then levelRung level else levelRung level + 1

/-- The rung below which the right operand of a level may not be. -/
def rightRung (level : Nat) : Nat := if level = 0 then 0 else levelRung level + 1

/-! ## Forms -/

/-- What is known of a tree: it is a token of a kind, or a node from a rung on. -/
inductive Form where
  | leaf (kind : Kind)
  | tight (rung : Nat)

/-- The form shows in a tree without trivia. -/
def Form.isShown : Form → Bool
  | leaf kind => kind.isSignificant
  | tight _ => true

/-- The rung of a node over trees of some forms. -/
def wordRung (kind : Kind) (word : List Form) : Nat :=
  match kind, word with
  | .binExpr, [_, .leaf op, _] => ((level? op).map levelRung).getD 0
  | kind, _ => kindRung kind

/-- Trees of these forms may stand under a node of the kind. -/
def wordFits (kind : Kind) (word : List Form) : Bool :=
  !hasOperands kind || (word.all Form.isShown && match kind, word with
    | .binExpr, [.tight l, .leaf op, .tight r] =>
      (level? op).any fun level => leftRung level ≤ l && rightRung level ≤ r
    | .rangeExpr, [.tight l, .leaf _, .tight r] => 2 ≤ l && 2 ≤ r
    | .rangeFromExpr, [.tight l, .leaf _] => 2 ≤ l
    | .rangeToExpr, [.leaf _, .tight r] => 2 ≤ r
    | .castExpr, .tight l :: _ => 11 ≤ l
    | .prefixExpr, [.leaf _, .tight r] => 12 ≤ r
    | .refExpr, word =>
      match word.getLast? with
      | some (.tight r) => 12 ≤ r
      | _ => false
    | .binExpr, _ | .rangeExpr, _ | .rangeFromExpr, _ | .rangeToExpr, _ | .prefixExpr, _ => false
    | _, .tight l :: _ => 13 ≤ l
    | _, _ => false)

/-! ### Words that fit -/

section

variable {kind : Kind} {word : List Form}

/-- No operand and no operator is a trivia. -/
theorem isShown_of_wordFits (hoperands : hasOperands kind = true) (h : wordFits kind word = true) :
    ∀ form ∈ word, form.isShown = true := by
  simp only [wordFits, hoperands, Bool.not_true, Bool.false_or] at h
  exact List.all_eq_true.mp (Bool.and_eq_true_iff.mp h).1

theorem wordFits_binExpr (h : wordFits .binExpr word = true) :
    ∃ l op r level, word = [.tight l, .leaf op, .tight r] ∧ level? op = some level ∧
      leftRung level ≤ l ∧ rightRung level ≤ r := by
  obtain ⟨-, h⟩ := Bool.and_eq_true_iff.mp h
  rcases word with _ | ⟨_ | l, _ | ⟨op | _, _ | ⟨_ | r, _ | _⟩⟩⟩ <;> try cases h
  obtain ⟨level, hlevel, hle⟩ := (Option.any_eq_true ..).mp h
  obtain ⟨hl, hr⟩ := Bool.and_eq_true_iff.mp hle
  exact ⟨l, op, r, level, rfl, hlevel, of_decide_eq_true hl, of_decide_eq_true hr⟩

theorem wordFits_range (hkind : kind ∈ [Kind.rangeExpr, .rangeFromExpr, .rangeToExpr])
    (h : wordFits kind word = true) :
    (∃ l, Form.tight l ∈ word) ∧ ∀ l, Form.tight l ∈ word → 2 ≤ l := by
  simp only [List.mem_cons, List.not_mem_nil, or_false] at hkind
  rcases hkind with rfl | rfl | rfl
  all_goals
    obtain ⟨-, h⟩ := Bool.and_eq_true_iff.mp h
    rcases word with _ | ⟨_ | l, _ | ⟨_ | _, _ | ⟨_ | r, _ | _⟩⟩⟩ <;> try cases h
    simp at h
    simp
    omega

theorem wordFits_castExpr (h : wordFits .castExpr word = true) :
    ∃ l rest, word = .tight l :: rest ∧ 11 ≤ l := by
  obtain ⟨-, h⟩ := Bool.and_eq_true_iff.mp h
  rcases word with _ | ⟨_ | l, rest⟩ <;> try cases h
  exact ⟨l, rest, rfl, of_decide_eq_true h⟩

theorem wordFits_unary (hkind : kind = .prefixExpr ∨ kind = .refExpr)
    (h : wordFits kind word = true) : ∃ rest r, word = rest ++ [.tight r] ∧ 12 ≤ r := by
  rcases hkind with rfl | rfl
  · obtain ⟨-, h⟩ := Bool.and_eq_true_iff.mp h
    rcases word with _ | ⟨op | _, _ | ⟨_ | r, _ | _⟩⟩ <;> try cases h
    exact ⟨[.leaf op], r, rfl, of_decide_eq_true h⟩
  · obtain ⟨-, hlast⟩ := Bool.and_eq_true_iff.mp h
    simp only at hlast
    split at hlast
    · next r heq =>
      obtain ⟨rest, rfl⟩ := List.getLast?_eq_some_iff.mp heq
      exact ⟨rest, r, rfl, of_decide_eq_true hlast⟩
    · cases hlast

theorem wordFits_postfix (hkind : kindRung kind = 13) (h : wordFits kind word = true) :
    ∃ l rest, word = .tight l :: rest ∧ 13 ≤ l := by
  cases kind <;> first | (exact absurd hkind (by decide)) | skip
  all_goals
    obtain ⟨-, h⟩ := Bool.and_eq_true_iff.mp h
    rcases word with _ | ⟨_ | l, rest⟩ <;> try cases h
    exact ⟨l, rest, rfl, of_decide_eq_true h⟩

end

/-! ## Words of terms -/

/-- The words of some trees, put before those of others. -/
def joinWords (ws vs : List (List Form)) : List (List Form) := ws.flatMap fun w => vs.map (w ++ ·)

/-- What the rounds of a fold make of an operand from rung `p` on: each round puts a node over
what there is and the trees of a tail.  A second round begins with the node of the first. -/
def foldRung? (p : Nat) (heads : List (Kind × List Form)) (max : Option Nat) : Option Nat :=
  let low := heads.foldl (fun n head => min n (wordRung head.1 (.tight p :: head.2))) p
  let fits (q : Nat) := heads.all fun head => wordFits head.1 (.tight q :: head.2)
  if fits p && (max = some 1 || fits low) then some low else none

/-- The rung from which on the nodes are that a rule matches, if it matches just one. -/
def ladderRung? (name : String) : Option Nat :=
  (levels.findIdx? (·.rule = name)).map levelRung <|>
    List.lookup name [("expr", 0), ("expr_range", 1), ("expr_cast", 11), ("expr_unary", 12),
      ("expr_postfix", 13), ("expr_primary", 14), ("block_like_expr", 14), ("type_no_bounds", 14)]

/-- What a rule matches, if it can be told. -/
def ruleShape (rule : Rule) : Option (List (List Form)) :=
  match ladderRung? rule.name with
  | some n => some [[.tight n]]
  | none => rule.kind.map fun kind => [[.tight (kindRung kind)]]

end Language

namespace Peg.Grammar

open Packrat.Language

variable (g : Grammar)

mutual

/-- The words that a term may match, if they can be told. -/
def shape : Term → Option (List (List Form))
  | .token kind | .split kind => some [[.leaf kind]]
  | .word _ => some [[.leaf .ident]]
  | .any | .star _ | .plus _ => none
  | .ended | .ahead _ | .notAhead _ => some [[]]
  | .seq items => shapeOfSeq items
  | .choice alternatives => shapeOfChoice alternatives
  | .opt body => (shape body).map ([] :: ·)
  | .ref r =>
    match g.resolve? r with
    | none => some []
    | some id =>
      match g.rules[id]? with
      | none => some []
      | some rule => ruleShape rule
  | .node kind _ => some [[.tight (kindRung kind)]]
  | .scoped _ _ body | .gate _ _ body => shape body
  | .fold operand tails max =>
    match shape operand, headsOf tails with
    | some [[.tight p]], some heads => (foldRung? p heads max).map fun n => [[.tight n]]
    | _, _ => none

/-- The words of terms in sequence. -/
def shapeOfSeq : List Term → Option (List (List Form))
  | [] => some [[]]
  | t :: ts =>
    match shape t with
    | none => none
    | some ws => (shapeOfSeq ts).map (joinWords ws)

/-- The words of alternatives. -/
def shapeOfChoice : List Term → Option (List (List Form))
  | [] => some []
  | t :: ts =>
    match shape t with
    | none => none
    | some ws => (shapeOfChoice ts).map (ws ++ ·)

/-- The words of the tails of a fold, each with the kind of its node. -/
def headsOf : List (Kind × Term) → Option (List (Kind × List Form))
  | [] => some []
  | (kind, t) :: tails =>
    match shape t with
    | none => none
    | some ws => (headsOf tails).map (ws.map (kind, ·) ++ ·)

end

/-- What is asked of a part of a term: under its node, or under the nodes of its fold, no
operand is too loose. -/
def keepsRungs : Term → Bool
  | .node kind body => !hasOperands kind || (g.shape body).any (·.all (wordFits kind))
  | .fold operand tails max => (g.shape (.fold operand tails max)).isSome
  | _ => true

/-- What is asked of a rule: its parts keep to the rungs; a rule of the ladder matches one node
from its rung on; other rules make no node with operands. -/
def isRung (rule : Rule) : Bool :=
  rule.body.parts.all g.keepsRungs &&
    match ladderRung? rule.name with
    | some n => rule.kind.isNone && (g.shape rule.body).any (·.all fun
        | [.tight k] => n ≤ k
        | _ => false)
    | none => rule.kind.all fun kind => !hasOperands kind

/-- What is asked of a grammar. -/
def isLadder : Bool := g.rules.toList.all g.isRung

end Peg.Grammar

namespace Language

open Peg

/-- **All rules of the language keep to the rungs.** -/
theorem isLadder_grammar {g : Grammar} (hg : grammar = .ok g) : g.isLadder = true :=
  of_coded (by decide +kernel) hg

end Language

/-! ## Trees on their rungs -/

namespace Peg.Match

open Packrat.Language

/-- The rung of a tree. -/
def rung : Match → Nat
  | token .. => 14
  | node .binExpr [_, token _ op _, _] => ((level? op).map levelRung).getD 0
  | node kind _ => kindRung kind

theorem kindRung_le_rung (kind : Kind) (children : List Match) :
    kindRung kind ≤ (node kind children).rung := by
  unfold rung
  split
  · next heq => cases heq
  · next heq => cases heq; exact Nat.zero_le _
  · next heq => cases heq; exact Nat.le_refl _

theorem rung_of_ne {kind : Kind} (h : kind ≠ .binExpr) (children : List Match) :
    (node kind children).rung = kindRung kind := by
  unfold rung
  split
  · next heq => cases heq
  · next heq => cases heq; exact absurd rfl h
  · next heq => cases heq; rfl

/-- A match that shows in a tree without trivia: a node or a significant token. -/
def isShown : Match → Bool
  | token _ kind _ => kind.isSignificant
  | node .. => true

end Peg.Match

namespace Language

open Peg

/-- The tree is of the form. -/
def Form.Fits : Form → Match → Prop
  | .leaf kind, .token _ kind' _ => kind' = kind
  | .tight n, .node kind children => n ≤ (Match.node kind children).rung
  | _, _ => False

theorem Form.Fits.mono {n k : Nat} {m : Match} (h : (Form.tight n).Fits m) (hle : k ≤ n) :
    (Form.tight k).Fits m := by
  cases m with
  | token index kind part => cases h
  | node kind children => exact Nat.le_trans hle h

theorem Form.Fits.isShown {form : Form} {m : Match} (h : form.Fits m) :
    m.isShown = form.isShown := by
  cases form with
  | leaf kind =>
    cases m with
    | token => cases h; rfl
    | node => cases h
  | tight n =>
    cases m with
    | token => cases h
    | node => rfl

/-- Trees of forms that show do so. -/
theorem isShown_of_forms {word : List Form} {children : List Match}
    (h : List.Forall₂ Form.Fits word children) (hshown : ∀ form ∈ word, form.isShown = true) :
    ∀ n ∈ children, n.isShown = true := by
  induction h with
  | nil => simp
  | cons hfits _ ih =>
    rintro n (_ | ⟨_, hn⟩)
    · rw [hfits.isShown]
      exact hshown _ (by simp)
    · exact ih (fun form hform => hshown form (by simp [hform])) n hn

/-- The rung that is told from the forms is not above the real one. -/
theorem wordRung_le_rung {kind : Kind} {word : List Form} {children : List Match}
    (h : List.Forall₂ Form.Fits word children) :
    wordRung kind word ≤ (Match.node kind children).rung := by
  unfold wordRung
  split
  · next l op r =>
    rcases h with _ | ⟨-, _ | ⟨hop, _ | ⟨-, _ | -⟩⟩⟩
    next op' _ =>
    cases op' with
    | node => cases hop
    | token index kind part =>
      cases hop
      exact Nat.le_refl _
  · exact Match.kindRung_le_rung kind children

/-- The rung does not depend on the left operand. -/
theorem wordRung_cons (kind : Kind) (p q : Nat) (word : List Form) :
    wordRung kind (.tight p :: word) = wordRung kind (.tight q :: word) := by
  unfold wordRung
  rcases word with _ | ⟨_ | _, _ | ⟨_, _ | _⟩⟩ <;> cases kind <;> rfl

/-- A fold that is accepted makes nodes from the rung on that is told, and every round fits. -/
theorem foldRung?_eq_some {p b : Nat} {heads : List (Kind × List Form)} {max : Option Nat}
    (h : foldRung? p heads max = some b) :
    b ≤ p ∧ (∀ head ∈ heads, b ≤ wordRung head.1 (.tight p :: head.2)) ∧
      (∀ head ∈ heads, wordFits head.1 (.tight p :: head.2) = true) ∧
      (max ≠ some 1 → ∀ head ∈ heads, wordFits head.1 (.tight b :: head.2) = true) := by
  have hlow : ∀ (heads : List (Kind × List Form)) (n : Nat),
      heads.foldl (fun n head => min n (wordRung head.1 (.tight p :: head.2))) n ≤ n ∧
        ∀ head ∈ heads, heads.foldl (fun n head =>
          min n (wordRung head.1 (.tight p :: head.2))) n ≤
            wordRung head.1 (.tight p :: head.2) := by
    intro heads
    induction heads with
    | nil => exact fun n => ⟨Nat.le_refl n, by simp⟩
    | cons head heads ih =>
      intro n
      obtain ⟨hle, hall⟩ := ih (min n (wordRung head.1 (.tight p :: head.2)))
      rw [List.foldl_cons]
      refine ⟨Nat.le_trans hle (Nat.min_le_left ..), ?_⟩
      rintro head' (_ | ⟨_, hmem⟩)
      · exact Nat.le_trans hle (Nat.min_le_right ..)
      · exact hall head' hmem
  simp only [foldRung?] at h
  split at h
  · next hfits =>
    obtain rfl := Option.some.inj h
    obtain ⟨hfirst, hmore⟩ := Bool.and_eq_true_iff.mp hfits
    obtain ⟨hle, hall⟩ := hlow heads p
    refine ⟨hle, hall, List.all_eq_true.mp hfirst, fun hmax => ?_⟩
    rcases Bool.or_eq_true_iff.mp hmore with hone | hfits
    · exact absurd (of_decide_eq_true hone) hmax
    · exact List.all_eq_true.mp hfits
  · cases h

end Language
end Packrat
