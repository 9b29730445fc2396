/-
# How an integer in a chain is read

Between the levels of the ladder and a literal stand rules that do nothing for chains: behind
an operand there is an operator or the end, and no tail of a range, a cast or a postfix form
begins with one of these; before it there is no prefix.

| rule | reads an integer as |
| --- | --- |
| a level of operators | an operand, and an operator with what is behind it |
| `expr_range` | its third alternative, without an end |
| `expr_cast`, `expr_postfix` | an operand without tails |
| `expr_unary` | its last alternative |
| `expr_primary`, `literal` | their first alternative |

That the rules are of this kind is seen by looking at them once (`isClimbable_grammar`).
-/

import Packrat.Proofs.Language.Chain
import Packrat.Proofs.Peg.Reads

namespace Packrat
namespace Language

open Peg

/-- The kinds that may stand behind an operand in a chain. -/
def followers : List Kind := .eof :: levels.flatMap (·.operators)

/-- The kinds of some tokens. -/
def tokensOf? : List Term → Option (List Kind)
  | [] => some []
  | .token kind :: ts => (tokensOf? ts).map (kind :: ·)
  | _ :: _ => none

theorem tokensOf?_eq_some {ts : List Term} : ∀ {kinds : List Kind}, tokensOf? ts = some kinds →
    ts = kinds.map .token := by
  induction ts with
  | nil =>
    rintro kinds ⟨⟩
    rfl
  | cons t ts ih =>
    intro kinds h
    cases t with
    | token kind =>
      obtain ⟨others, hothers, rfl⟩ := Option.map_eq_some_iff.mp h
      rw [ih hothers]
      rfl
    | _ => cases h

/-- The rule behind an operator of a level. -/
def Level.behind (level : Level) : String :=
  if level.assoc = .right then level.rule else level.operand

/-- The number of operators that a level admits in a row, if it is limited. -/
def Level.max (level : Level) : Option Nat := if level.assoc = .left then none else some 1

end Language

namespace Peg.Grammar

open Packrat.Language

variable (g : Grammar)

/-- The reference stands for the rule of a name. -/
def refersTo (r : RuleRef) (name : String) : Bool := g.resolve? r = g.id? name

/-- The rule of a name is as `check` says. -/
def hasRule (name : String) (check : Rule → Bool) : Bool :=
  ((g.id? name).bind (g.rules[·]?)).any check

/-- No tail begins with what may stand behind an operand. -/
def tailsReject (tails : List (Kind × Term)) : Bool :=
  followers.all fun kind => tails.all fun tail => tail.2.rejects (g.rejectsRef kind) kind

/-- A rule folds the operands of a level with its operators. -/
def isLevelRule (level : Level) : Rule → Bool
  | ⟨_, none, none, none, .fold (.ref operand) [(.binExpr, .seq [.choice ops, .ref behind])] max⟩ =>
    g.refersTo operand level.operand && g.refersTo behind level.behind &&
      tokensOf? ops = some level.operators && max = level.max
  | _ => false

/-- A rule folds the operands of a name with tails that do not occur in chains. -/
def isOperandRule (name : String) : Rule → Bool
  | ⟨_, none, none, none, .fold (.ref operand) tails max⟩ =>
    g.refersTo operand name && g.tailsReject tails && max != some 0
  | _ => false

/-- A range: one without a lower end, or an operand and an upper end. -/
def isRangeRule : Rule → Bool
  | ⟨_, none, none, none, .choice [a, b, .fold (.ref operand) tails max]⟩ =>
    a.rejects (fun _ => false) .intNumber && b.rejects (fun _ => false) .intNumber &&
      g.refersTo operand "expr_or" && g.tailsReject tails && max != some 0
  | _ => false

/-- A prefix operator, a reference, or a postfix form. -/
def isUnaryRule : Rule → Bool
  | ⟨_, none, none, none, .choice [a, .node _ (.seq (.split .amp :: _)), .ref r]⟩ =>
    a.rejects (fun _ => false) .intNumber && g.refersTo r "expr_postfix"
  | _ => false

/-- The first thing that is tried is a literal. -/
def isPrimaryRule : Rule → Bool
  | ⟨_, none, _, none, .choice (.ref r :: _)⟩ => g.refersTo r "literal"
  | _ => false

/-- The first thing that is tried is an integer. -/
def isLiteralRule : Rule → Bool
  | ⟨_, some .literal, _, none, .choice (.token .intNumber :: _)⟩ => true
  | _ => false

/-- An expression is what the loosest level reads. -/
def isExprRule : Rule → Bool
  | ⟨_, none, _, none, .ref r⟩ => g.refersTo r "expr_assign"
  | _ => false

/-- The rules with which chains are read are as expected. -/
def isClimbable : Bool :=
  (levels.all fun level => g.hasRule level.rule (g.isLevelRule level)) &&
    g.hasRule "expr_range" g.isRangeRule && g.hasRule "expr_cast" (g.isOperandRule "expr_unary") &&
    g.hasRule "expr_unary" g.isUnaryRule &&
    g.hasRule "expr_postfix" (g.isOperandRule "expr_primary") &&
    g.hasRule "expr_primary" g.isPrimaryRule && g.hasRule "literal" isLiteralRule &&
    g.hasRule "expr" g.isExprRule

end Peg.Grammar

namespace Language

open Peg

/-- **The rules with which chains are read are as expected.** -/
theorem isClimbable_grammar {g : Grammar} (hg : grammar = .ok g) : g.isClimbable = true :=
  of_coded (by decide +kernel) hg

end Language

/-! ## Tokens of a chain -/

namespace Language

/-- The kinds and texts of the tokens behind an integer in a chain, and the end of the text. -/
def symbolsBehind : List (BinaryOp × Integer) → List Peg.Symbol
  | [] => [⟨.eof, ""⟩]
  | (op, x) :: rest =>
    ⟨op.kind, String.ofList op.word⟩ :: ⟨.intNumber, String.ofList x.word⟩ :: symbolsBehind rest

/-- The first of what is left from a place on, and what is left behind it. -/
theorem getElem?_of_drop {α : Type} {xs : Array α} {i : Nat} {x : α} {rest : List α}
    (h : xs.toList.drop i = x :: rest) : xs[i]? = some x ∧ xs.toList.drop (i + 1) = rest := by
  constructor
  · rw [← Array.getElem?_toList, ← Nat.add_zero i, ← List.getElem?_drop, h]
    rfl
  · rw [← List.drop_drop, h]
    rfl

end Language

namespace Peg.Machine

open Packrat.Language

variable {m : Machine} {i j : Nat} {x : Integer} {op : BinaryOp}
  {rest : List (BinaryOp × Integer)} {r : RuleRef} {name : String}

/-- From token `i` on there is the rest of a chain, behind an integer. -/
def IsBehind (m : Machine) (i : Nat) (rest : List (BinaryOp × Integer)) : Prop :=
  m.tokens.toList.drop i = symbolsBehind rest

/-- From token `i` on there is a chain. -/
def IsAt (m : Machine) (i : Nat) (x : Integer) (rest : List (BinaryOp × Integer)) : Prop :=
  m.tokens.toList.drop i = ⟨.intNumber, String.ofList x.word⟩ :: symbolsBehind rest

theorem IsAt.behind (h : m.IsAt i x rest) : m.IsBehind (i + 1) rest := (getElem?_of_drop h).2

theorem IsBehind.next (h : m.IsBehind i ((op, x) :: rest)) : m.IsAt (i + 1) x rest :=
  (getElem?_of_drop h).2

theorem kindAt_of_getElem? {symbol : Symbol} (h : m.tokens[i]? = some symbol) :
    m.kindAt ⟨i, 0⟩ = symbol.kind := by
  simp [kindAt, h, Pos.isSplit]

theorem IsAt.kindAt (h : m.IsAt i x rest) : m.kindAt ⟨i, 0⟩ = .intNumber :=
  kindAt_of_getElem? (getElem?_of_drop h).1

theorem IsBehind.kindAt_cons (h : m.IsBehind i ((op, x) :: rest)) : m.kindAt ⟨i, 0⟩ = op.kind :=
  kindAt_of_getElem? (getElem?_of_drop h).1

theorem IsBehind.kindAt_nil (h : m.IsBehind i []) : m.kindAt ⟨i, 0⟩ = .eof :=
  kindAt_of_getElem? (getElem?_of_drop h).1

/-- Behind an operand is an operator, or the end. -/
theorem IsBehind.mem_followers (h : m.IsBehind i rest) : m.kindAt ⟨i, 0⟩ ∈ followers := by
  cases rest with
  | nil =>
    rw [h.kindAt_nil]
    exact List.mem_cons_self
  | cons link rest =>
    obtain ⟨op, x⟩ := link
    obtain ⟨level, hlevel, hmem⟩ := op.kind_mem
    rw [h.kindAt_cons]
    exact List.mem_cons_of_mem _ (List.mem_flatMap.mpr ⟨level, List.mem_of_getElem? hlevel, hmem⟩)

/-- No reference begins with an integer. -/
theorem IsAt.read?_split_amp (h : m.IsAt i x rest) : m.read? ⟨i, 0⟩ (.split .amp) = none := by
  obtain ⟨c, cs, hword, hdigit, -⟩ := x.isInteger
  have hspell : Kind.amp.spelling? = some "&" := by decide
  have htext : m.textAt ⟨i, 0⟩ = String.ofList (c :: cs) := by
    simp [textAt, (getElem?_of_drop h).1, Pos.isSplit, hword]
  have hnot : ¬ m.BeginsWith ⟨i, 0⟩ "&" := by
    rintro ⟨-, hstart⟩
    rw [htext] at hstart
    have hc : '&' = c := by simpa using hstart
    subst hc
    cases hdigit
  simp [read?, h.kindAt, hspell, hnot]

/-! ## Operands -/

/-- A reference to a rule that passes a check. -/
theorem exists_rule {check : Rule → Bool} (h : m.grammar.hasRule name check = true)
    (hr : m.grammar.refersTo r name = true) : ∃ id rule, m.grammar.resolve? r = some id ∧
      m.grammar.rules[id]? = some rule ∧ check rule = true := by
  obtain ⟨rule, hrule, hcheck⟩ := (Option.any_eq_true ..).mp h
  obtain ⟨id, hid, hrule⟩ := Option.bind_eq_some_iff.mp hrule
  have hr : m.grammar.resolve? r = m.grammar.id? name := of_decide_eq_true hr
  exact ⟨id, rule, hr.trans hid, hrule, hcheck⟩

/-- A literal is read whole. -/
theorem reads_literal (hg : m.grammar.hasRule "literal" Grammar.isLiteralRule = true)
    (hat : m.IsAt i x rest) (hr : m.grammar.refersTo r "literal" = true) :
    m.Reads (.term (.ref r)) ⟨i, 0⟩
      (some ([.node .literal [.token i .intNumber none]], ⟨i + 1, 0⟩)) (i + 1) := by
  obtain ⟨id, rule, hid, hrule, hcheck⟩ := exists_rule hg hr
  unfold Grammar.isLiteralRule at hcheck
  split at hcheck
  · next others =>
    have hbody : m.Reads (.term (.choice (.token .intNumber :: others))) ⟨i, 0⟩
        (some ([.token i .intNumber none], ⟨i + 1, 0⟩)) (i + 1) :=
      .choice_here (.token_some hat.kindAt)
    exact Reads.ref hid hrule (by rintro c ⟨⟩) (.inr rfl) hbody
  · cases hcheck

/-- A literal is the first thing that is tried. -/
theorem reads_primary (hg : m.grammar.hasRule "expr_primary" m.grammar.isPrimaryRule = true)
    {ns : List Match} (hr : m.grammar.refersTo r "expr_primary" = true)
    (h : ∀ r, m.grammar.refersTo r "literal" = true →
      m.Reads (.term (.ref r)) ⟨i, 0⟩ (some (ns, ⟨j, 0⟩)) j) :
    m.Reads (.term (.ref r)) ⟨i, 0⟩ (some (ns, ⟨j, 0⟩)) j := by
  obtain ⟨id, rule, hid, hrule, hcheck⟩ := exists_rule hg hr
  unfold Grammar.isPrimaryRule at hcheck
  split at hcheck
  · exact Reads.ref hid hrule (by rintro c ⟨⟩) (.inr rfl) (.choice_here (h _ hcheck))
  · cases hcheck

/-- No tail begins with what stands behind an operand. -/
theorem reads_tailsReject {tails : List (Kind × Term)} (h : m.grammar.tailsReject tails = true)
    (hkind : m.kindAt ⟨j, 0⟩ ∈ followers) : m.Reads (.term (.ofTails tails)) ⟨j, 0⟩ none j :=
  reads_ofTails_none rfl (List.all_eq_true.mp (List.all_eq_true.mp h _ hkind))

/-- Tails that do not occur in chains leave an operand as it is. -/
theorem reads_operand {operand : String} (hg : m.grammar.hasRule name
      (m.grammar.isOperandRule operand) = true) {ns : List Match}
    (hr : m.grammar.refersTo r name = true) (hkind : m.kindAt ⟨j, 0⟩ ∈ followers)
    (h : ∀ r, m.grammar.refersTo r operand = true →
      m.Reads (.term (.ref r)) ⟨i, 0⟩ (some (ns, ⟨j, 0⟩)) j) :
    m.Reads (.term (.ref r)) ⟨i, 0⟩ (some (ns, ⟨j, 0⟩)) j := by
  obtain ⟨id, rule, hid, hrule, hcheck⟩ := exists_rule hg hr
  unfold Grammar.isOperandRule at hcheck
  split at hcheck
  · obtain ⟨hboth, hmax⟩ := Bool.and_eq_true_iff.mp hcheck
    obtain ⟨hrefers, htails⟩ := Bool.and_eq_true_iff.mp hboth
    exact Reads.ref hid hrule (by rintro c ⟨⟩) (.inl rfl)
      (.fold (h _ hrefers) (.rounds_end (by simpa using hmax) (reads_tailsReject htails hkind)))
  · cases hcheck

/-- Without a prefix there is a postfix form. -/
theorem reads_unary (hg : m.grammar.hasRule "expr_unary" m.grammar.isUnaryRule = true)
    {ns : List Match} (hr : m.grammar.refersTo r "expr_unary" = true) (hat : m.IsAt i x rest)
    (hij : i ≤ j) (h : ∀ r, m.grammar.refersTo r "expr_postfix" = true →
      m.Reads (.term (.ref r)) ⟨i, 0⟩ (some (ns, ⟨j, 0⟩)) j) :
    m.Reads (.term (.ref r)) ⟨i, 0⟩ (some (ns, ⟨j, 0⟩)) j := by
  obtain ⟨id, rule, hid, hrule, hcheck⟩ := exists_rule hg hr
  unfold Grammar.isUnaryRule at hcheck
  split at hcheck
  · obtain ⟨hfirst, hrefers⟩ := Bool.and_eq_true_iff.mp hcheck
    have hbefore := reads_of_rejects hat.kindAt (by rintro r ⟨⟩) _ hfirst
    have hamp : m.Reads (.term (.split .amp)) ⟨i, 0⟩ none i :=
      .terminal_none rfl rfl hat.read?_split_amp
    exact Reads.ref hid hrule (by rintro c ⟨⟩) (.inl rfl)
      (.choice_next (hbefore.mono hij) (.choice_next (hamp.seq_fail.node.mono hij)
        (.choice_here (h _ hrefers))))
  · cases hcheck

/-- An integer is an operand as it stands. -/
theorem reads_cast (hg : m.grammar.isClimbable = true) (hat : m.IsAt i x rest)
    (hr : m.grammar.refersTo r "expr_cast" = true) : m.Reads (.term (.ref r)) ⟨i, 0⟩
      (some ([.node .literal [.token i .intNumber none]], ⟨i + 1, 0⟩)) (i + 1) := by
  simp only [Grammar.isClimbable, Bool.and_eq_true] at hg
  obtain ⟨⟨⟨⟨⟨⟨-, hcast⟩, hunary⟩, hpostfix⟩, hprimary⟩, hliteral⟩, -⟩ := hg
  have hkind := hat.behind.mem_followers
  refine reads_operand hcast hr hkind fun r hr => ?_
  refine reads_unary hunary hr hat (Nat.le_succ i) fun r hr => ?_
  refine reads_operand hpostfix hr hkind fun r hr => ?_
  exact reads_primary hprimary hr fun r hr => reads_literal hliteral hat hr

end Peg.Machine
end Packrat
