/-
# Heads

The condition of `if` and `while`, what `match` looks at, and what `for` runs over: the head of
such a node is the node right behind a keyword of its own (`headKeyword?`).  In a head no struct
literal stands but in brackets that the head opens (`Match.HasHead`).

The flag that forbids them is set where a rule matches a head, so what the head nests is known
from there on (`Parses.nests`).  What is left is to see that the head is found again in the
tree: that nodes of these kinds come from their rules alone, and that nothing before the head is
a token of the keyword (`Grammar.hides`).
-/

import Packrat.Proofs.Language.Grouped
import Packrat.Proofs.Language.Nesting

namespace Packrat
namespace Language

/-- The keyword before the head of a node. -/
def headKeyword? : Kind → Option Kind
  | .ifExpr => some .ifKw
  | .whileExpr => some .whileKw
  | .matchExpr => some .matchKw
  | .forExpr => some .inKw
  | _ => none

/-- The keywords before heads. -/
def headKeywords : List Kind := [.ifKw, .whileKw, .matchKw, .inKw]

theorem mem_headKeywords {kind kw : Kind} (h : headKeyword? kind = some kw) :
    kw ∈ headKeywords := by
  cases kind <;> cases h <;> decide

end Language

namespace Peg

open Packrat.Language

/-! ## Heads in matches -/

namespace Match

/-- The tree is a token of a kind. -/
def isToken (kw : Kind) : Match → Bool
  | token _ kind _ => kind = kw
  | node .. => false

/-- Behind the first token of the keyword stands a node, in which each struct literal is in a
bracket that the node opens. -/
def HasHead (kw : Kind) (ns : List Match) : Prop :=
  ∃ before index part kind children after,
    ns = before ++ token index kw part :: node kind children :: after ∧
      (∀ n ∈ before, n.isToken kw = false) ∧ Mark.Guarded [] (node kind children).marks

/-- All nodes in the tree that should have a head have one. -/
inductive IsHeaded : Match → Prop where
  | token {index kind part} : IsHeaded (.token index kind part)
  | node {kind children} : (∀ kw, headKeyword? kind = some kw → HasHead kw children) →
    (∀ c ∈ children, IsHeaded c) → IsHeaded (.node kind children)

theorem IsHeaded.of_within {m n : Match} (hn : n.IsHeaded) (h : m.Within n) : m.IsHeaded := by
  induction h with
  | self => exact hn
  | inner hc _ ih =>
    rcases hn with _ | ⟨-, hchildren⟩
    exact ih (hchildren _ hc)

theorem HasHead.append {kw : Kind} {ns ms : List Match} (hns : ∀ n ∈ ns, n.isToken kw = false)
    (h : HasHead kw ms) : HasHead kw (ns ++ ms) := by
  obtain ⟨before, index, part, kind, children, after, rfl, hbefore, hguarded⟩ := h
  refine ⟨ns ++ before, index, part, kind, children, after, by simp, fun n hn => ?_, hguarded⟩
  rcases List.mem_append.mp hn with hn | hn
  · exact hns n hn
  · exact hbefore n hn

end Match

/-! ## Heads in terms -/

namespace Grammar

variable (g : Grammar)

/-- The rule whose trees may be tokens of any kind. -/
def anyRule : String := "tt"

mutual

/-- No tree that the term matches is a token of the keyword. -/
def hides (kw : Kind) : Term → Bool
  | .token kind | .split kind => kind != kw
  | .word _ => kw != .ident
  | .any => false
  | .ended | .ahead _ | .notAhead _ | .node _ _ => true
  | .seq items | .choice items => hidesAll kw items
  | .opt body | .star body | .plus body | .scoped _ _ body | .gate _ _ body => hides kw body
  | .ref r => (g.resolve? r).all fun id => (g.rules[id]?).all fun rule =>
      rule.kind.isSome || rule.name != anyRule
  | .fold operand _ _ => hides kw operand

/-- No tree that one of the terms matches is a token of the keyword. -/
def hidesAll (kw : Kind) : List Term → Bool
  | [] => true
  | t :: ts => hides kw t && hidesAll kw ts

end

/-- The term is a rule that matches one node, under the flag that forbids struct literals. -/
def isForbidding : Term → Bool
  | .scoped set unset (.ref r) => set.noStruct && !unset.noStruct && !g.makesRecord r &&
      match g.shape (.ref r) with
      | some [[.tight _]] => true
      | _ => false
  | _ => false

/-- The term is a head, or a rule for heads. -/
def isHead : Term → Bool
  | .ref r => (g.resolve? r).any fun id => (g.rules[id]?).any fun rule =>
      rule.kind.isNone && g.isForbidding rule.body
  | t => g.isForbidding t

/-- The term is the keyword, and a head comes behind it. -/
def startsHead (kw : Kind) (t : Term) (ts : List Term) : Bool :=
  match t, ts with
  | .token kind, head :: _ => kind == kw && g.isHead head
  | _, _ => false

/-- Among some terms in sequence stands a head behind its keyword, and no other keyword before
it. -/
def leads (kw : Kind) : List Term → Bool
  | [] => false
  | t :: ts => g.startsHead kw t ts || g.hides kw t && leads kw ts

/-- What is asked of a part of a term: it makes no node that should have a head. -/
def makesNoHead : Term → Bool
  | .node kind _ => (headKeyword? kind).isNone
  | .fold _ tails _ => tails.all fun tail => (headKeyword? tail.1).isNone
  | _ => true

/-- What is asked of a rule: nodes with heads are its own, and then it is a sequence with a head;
if it makes no node, it hides the keywords before heads. -/
def keepsHeads (rule : Rule) : Bool :=
  rule.body.parts.all makesNoHead &&
    match rule.kind with
    | none => rule.name == anyRule || headKeywords.all fun kw => g.hides kw rule.body
    | some kind => (headKeyword? kind).all fun kw =>
        match rule.body with
        | .seq items => g.leads kw items
        | _ => false

/-- What is asked of a grammar. -/
def hasHeads : Bool := g.rules.toList.all g.keepsHeads

variable {g} {kw kind : Kind} {t : Term} {ts : List Term} {ns ms : List Match} {rule : Rule}

theorem leads_cons (h : g.leads kw (t :: ts) = true) :
    (∃ head rest, t = .token kw ∧ ts = head :: rest ∧ g.isHead head = true) ∨
      g.hides kw t = true ∧ g.leads kw ts = true := by
  rcases Bool.or_eq_true_iff.mp h with hstarts | hlater
  · unfold startsHead at hstarts
    split at hstarts
    · next kind head rest =>
      obtain ⟨hkind, hhead⟩ := Bool.and_eq_true_iff.mp hstarts
      exact .inl ⟨head, rest, by rw [beq_iff_eq.mp hkind], rfl, hhead⟩
    · cases hstarts
  · exact .inr (Bool.and_eq_true_iff.mp hlater)

theorem keepsHeads_of_hasHeads (hg : g.hasHeads = true) {id : Nat}
    (hrule : g.rules[id]? = some rule) : g.keepsHeads rule = true :=
  List.all_eq_true.mp hg rule (Array.mem_toList_iff.mpr (Array.mem_of_getElem? hrule))

/-- Parts that make no nodes with heads. -/
abbrev IsHeadless (t : Term) : Prop := t.Every (makesNoHead · = true)

theorem isHeadless_body (h : g.keepsHeads rule = true) : IsHeadless rule.body :=
  fun u hu => List.all_eq_true.mp (Bool.and_eq_true_iff.mp h).1 u hu

theorem isHeadless_rule (name : String) : IsHeadless (.rule name) := Term.every_rule rfl

theorem isHeadless_rule_ended (name : String) : IsHeadless (.seq [.rule name, .ended]) :=
  Term.every_rule_ended rfl rfl rfl

theorem isHeadless_ofTails {operand : Term} {tails : List (Kind × Term)} {max : Option Nat}
    (h : IsHeadless (.fold operand tails max)) : IsHeadless (.ofTails tails) := by
  refine Term.every_iff.mpr ⟨rfl, fun c hc => ?_⟩
  obtain ⟨tail, htail, rfl⟩ := List.mem_map.mp hc
  refine Term.every_iff.mpr ⟨List.all_eq_true.mp h.self tail htail, fun c hc => ?_⟩
  obtain rfl := List.mem_singleton.mp hc
  exact h.child (List.mem_cons_of_mem _ (List.mem_map_of_mem htail))

/-- Nodes in the trees have their heads, the trees are no tokens that the term hides, and there
is a head if the term leads to one. -/
structure Heads (g : Grammar) (t : Term) (ns : List Match) : Prop where
  headed : ∀ n ∈ ns, n.IsHeaded
  hidden : ∀ kw ∈ headKeywords, g.hides kw t = true → ∀ n ∈ ns, n.isToken kw = false
  led : ∀ kw ∈ headKeywords, ∀ items, t = .seq items → g.leads kw items = true → Match.HasHead kw ns

/-- A node without a head, over trees. -/
theorem isHeaded_node (hkind : headKeyword? kind = none) (h : ∀ n ∈ ns, n.IsHeaded) :
    (Match.node kind ns).IsHeaded :=
  .node (fun kw hkw => by rw [hkind] at hkw; cases hkw) h

namespace Heads

/-- What holds of terms that are no sequence. -/
theorem of_not_seq (hseq : t.isSeq = false) (h : ∀ n ∈ ns, n.IsHeaded)
    (hhidden : ∀ kw ∈ headKeywords, g.hides kw t = true → ∀ n ∈ ns, n.isToken kw = false) :
    g.Heads t ns :=
  ⟨h, hhidden, fun _ _ items heq => by subst heq; cases hseq⟩

/-- A term that is no sequence matches nothing. -/
theorem nil (hseq : t.isSeq = false) : g.Heads t [] :=
  .of_not_seq hseq (by simp) (by simp)

/-- A term that is no sequence gives the trees of one that hides no less. -/
theorem of_heads {t' : Term} (h : g.Heads t ns) (hseq : t'.isSeq = false)
    (hhides : ∀ kw, g.hides kw t' = true → g.hides kw t = true) : g.Heads t' ns :=
  .of_not_seq hseq h.headed fun kw hkw hhide => h.hidden kw hkw (hhides kw hhide)

/-- Trees side by side of a term that is no sequence. -/
theorem append {t' : Term} (hseq : t'.isSeq = false) (h : g.Heads t' ns)
    (h' : g.Heads t' ms) : g.Heads t' (ns ++ ms) := by
  refine .of_not_seq hseq (fun n hn => ?_) fun kw hkw hhide n hn => ?_
  · rcases List.mem_append.mp hn with hn | hn
    · exact h.headed n hn
    · exact h'.headed n hn
  · rcases List.mem_append.mp hn with hn | hn
    · exact h.hidden kw hkw hhide n hn
    · exact h'.hidden kw hkw hhide n hn

end Heads

end Grammar
end Peg

namespace Language

open Peg

/-- **All rules of the language keep heads.** -/
theorem hasHeads_grammar {g : Grammar} (hg : grammar = .ok g) : g.hasHeads = true :=
  of_coded (by decide +kernel) hg

end Language

namespace Peg.Parses

open Grammar Packrat.Language

variable {m : Machine} {f : Flags} {goal : Goal} {pos stop : Pos} {a : Answer} {t : Term}
  {ns : List Match}

/-- A rule matches one node where struct literals are forbidden, and forbidden they are. -/
theorem node_of_isForbidding (hladder : m.grammar.isLadder = true)
    (htame : m.grammar.hasTameRules = true) (ht : m.grammar.isForbidding t = true)
    (h : Parses m f (.term t) pos (some (ns, stop))) :
    ∃ kind children, ns = [.node kind children] ∧
      Mark.Guarded [] (Match.node kind children).marks := by
  unfold isForbidding at ht
  split at ht
  case h_2 => cases ht
  next set unset r =>
  simp only [Bool.and_eq_true] at ht
  obtain ⟨⟨⟨hset, hkept⟩, hrecord⟩, hshape⟩ := ht
  have hone : m.grammar.isOneNode (.ref r) = true := Bool.and_eq_true_iff.mpr ⟨rfl, hshape⟩
  have hbody := h.body_of_scoped
  obtain ⟨kind, children, rfl⟩ := hbody.node_of_isOneNode hladder hone
  refine ⟨kind, children, rfl, ?_⟩
  have hterm : m.grammar.isTame false false (.ref r) = true := by simpa [isTame] using hrecord
  have hnests := (hbody.nests htame).tame hterm Bool.noConfusion rfl
  rw [Match.marksAll_singleton] at hnests
  refine hnests.guarded [] Bool.noConfusion fun hclear => ?_
  have hkept : unset.noStruct = false := by simpa using hkept
  simp [Flags.diff, Flags.union, hset, hkept] at hclear

/-- A head is one node, in which struct literals are forbidden. -/
theorem node_of_isHead (hladder : m.grammar.isLadder = true)
    (htame : m.grammar.hasTameRules = true) (ht : m.grammar.isHead t = true)
    (h : Parses m f (.term t) pos (some (ns, stop))) :
    ∃ kind children, ns = [.node kind children] ∧
      Mark.Guarded [] (Match.node kind children).marks := by
  unfold isHead at ht
  split at ht
  · next r =>
    obtain ⟨id, rule, ms, hid, hrule, rfl, hbody⟩ := h.exists_body
    rw [hid, Option.any_some, hrule, Option.any_some] at ht
    obtain ⟨hkind, hforbids⟩ := Bool.and_eq_true_iff.mp ht
    rw [Rule.close, Option.isNone_iff_eq_none.mp hkind]
    exact hbody.node_of_isForbidding hladder htame hforbids
  · exact h.node_of_isForbidding hladder htame ht

/-- A terminal reads tokens that it does not hide. -/
theorem heads_read? (h : m.read? pos t = some (ns, stop)) : m.grammar.Heads t ns := by
  have hleaf : ∀ {index kind part}, t.isSeq = false →
      (∀ kw, m.grammar.hides kw t = true → (kind != kw) = true) →
      m.grammar.Heads t [.token index kind part] := by
    intro index kind part hseq hhides
    refine .of_not_seq hseq (fun n hn => ?_) fun kw _ hhide n hn => ?_
    · obtain rfl := List.mem_singleton.mp hn
      exact .token
    · obtain rfl := List.mem_singleton.mp hn
      exact decide_eq_false (bne_iff_ne.mp (hhides kw hhide))
  rcases Machine.read?_cases h with ⟨rfl, rfl⟩ | ⟨index, kind, part, rfl, rfl | rfl | hword | hany⟩
  · exact .nil rfl
  · exact hleaf rfl fun _ => id
  · exact hleaf rfl fun _ => id
  · obtain ⟨⟨text, rfl⟩, rfl⟩ := hword
    exact hleaf rfl fun kw hhide => by simpa [hides, bne_comm] using hhide
  · obtain ⟨rfl, -⟩ := hany
    exact hleaf rfl fun _ hhide => by cases hhide

/-- What an answer to a goal says of heads. -/
def GoalHeads (g : Grammar) (a : Answer) : Goal → Prop
  | .term t => IsHeadless t → ∀ ns stop, a = some (ns, stop) → g.Heads t ns
  | .rounds tails _ done => IsHeadless (.ofTails tails) → (∀ n ∈ done, n.IsHeaded) →
      ∀ ns stop, a = some (ns, stop) → (∀ n ∈ ns, n.IsHeaded) ∧
        ∀ kw, (∀ n ∈ done, n.isToken kw = false) → ∀ n ∈ ns, n.isToken kw = false

/-- A sequence leads to a head in its first two items, or later. -/
theorem heads_seq_cons {ts : List Term} {mid : Pos} {ms : List Match}
    (hladder : m.grammar.isLadder = true) (htame : m.grammar.hasTameRules = true)
    (hfirst : Parses m f (.term t) pos (some (ns, mid)))
    (hrest : Parses m f (.term (.seq ts)) mid (some (ms, stop)))
    (h : m.grammar.Heads t ns) (h' : m.grammar.Heads (.seq ts) ms) :
    m.grammar.Heads (.seq (t :: ts)) (ns ++ ms) where
  headed n hn := by
    rcases List.mem_append.mp hn with hn | hn
    · exact h.headed n hn
    · exact h'.headed n hn
  hidden kw hkw hhide n hn := by
    obtain ⟨ht, hts⟩ := Bool.and_eq_true_iff.mp hhide
    rcases List.mem_append.mp hn with hn | hn
    · exact h.hidden kw hkw ht n hn
    · exact h'.hidden kw hkw hts n hn
  led kw hkw items heq hleads := by
    cases heq
    rcases leads_cons hleads with ⟨head, rest, rfl, rfl, hhead⟩ | ⟨hhides, hlater⟩
    · -- the first item is the keyword, so the second is the head
      obtain ⟨index, part, rfl⟩ := hfirst.token_eq
      obtain ⟨nodes, mid', after, rfl, hnode, -⟩ := hrest.exists_first
      obtain ⟨kind, children, rfl, hguarded⟩ := hnode.node_of_isHead hladder htame hhead
      exact ⟨[], index, part, kind, children, after, rfl, by simp, hguarded⟩
    · exact (h'.led kw hkw ts rfl hlater).append (h.hidden kw hkw hhides)

/-- What a rule makes of what its body matches. -/
theorem heads_ref {r : RuleRef} {id : Nat} {rule : Rule} (hid : m.grammar.resolve? r = some id)
    (hrule : m.grammar.rules[id]? = some rule) (hkeeps : m.grammar.keepsHeads rule = true)
    (h : m.grammar.Heads rule.body ns) : m.grammar.Heads (.ref r) (rule.close ns) := by
  obtain ⟨-, hkind⟩ := Bool.and_eq_true_iff.mp hkeeps
  cases hnode : rule.kind with
  | none =>
    -- its trees stand where the rule is named, so it hides what its body hides
    rw [hnode] at hkind
    rw [Rule.close, hnode]
    refine .of_not_seq rfl h.headed fun kw hkw hhide => h.hidden kw hkw ?_
    have hany : (rule.name == anyRule) = false := by
      simpa [hides, hid, hrule, hnode] using hhide
    rw [hany, Bool.false_or] at hkind
    exact List.all_eq_true.mp hkind kw hkw
  | some kind =>
    rw [hnode] at hkind
    rw [Rule.close, hnode]
    refine .of_not_seq rfl (fun n hn => ?_) fun kw _ _ n hn => ?_
    · obtain rfl := List.mem_singleton.mp hn
      refine .node (fun kw hkw => ?_) h.headed
      simp only [hkw, Option.all_some] at hkind
      split at hkind
      · next items hbody => exact h.led kw (mem_headKeywords hkw) items hbody hkind
      · cases hkind
    · obtain rfl := List.mem_singleton.mp hn
      rfl

/-- **Nodes have their heads**, and in these no struct literal stands bare. -/
theorem heads (hg : m.grammar.hasHeads = true) (hladder : m.grammar.isLadder = true)
    (htame : m.grammar.hasTameRules = true) (h : Parses m f goal pos a) :
    GoalHeads m.grammar a goal := by
  induction h with
  | @terminal f t pos ht =>
    intro _ ns stop hread
    exact heads_read? hread
  | seq_nil =>
    rintro - ns stop ⟨⟩
    exact ⟨by simp, by simp, fun kw _ items heq hleads => by cases heq; cases hleads⟩
  | seq_fail => rintro - ns stop ⟨⟩
  | seq_cons hfirst hrest ih₁ ih₂ =>
    intro hless ns' stop heq
    obtain ⟨⟨ms, stop'⟩, rfl, hr⟩ := Option.map_eq_some_iff.mp heq
    cases hr
    refine heads_seq_cons hladder htame hfirst hrest ?_ ?_
    · exact ih₁ (hless.child List.mem_cons_self) _ _ rfl
    · exact ih₂ (Term.every_iff.mpr ⟨rfl, fun c hc =>
        hless.child (List.mem_cons_of_mem _ hc)⟩) _ _ rfl
  | choice_nil => rintro - ns stop ⟨⟩
  | choice_here _ ih =>
    rintro hless ns stop ⟨⟩
    refine (ih (hless.child List.mem_cons_self) _ _ rfl).of_heads rfl fun kw hhide => ?_
    exact (Bool.and_eq_true_iff.mp hhide).1
  | choice_next _ _ _ ih =>
    intro hless ns stop heq
    have hrest := ih (Term.every_iff.mpr ⟨rfl, fun c hc =>
      hless.child (List.mem_cons_of_mem _ hc)⟩) ns stop heq
    exact hrest.of_heads rfl fun kw hhide => (Bool.and_eq_true_iff.mp hhide).2
  | @opt f t pos a _ ih =>
    intro hless ns stop heq
    cases a with
    | none =>
      cases heq
      exact .nil rfl
    | some r => exact (ih (hless.child List.mem_cons_self) ns stop heq).of_heads rfl fun _ => id
  | star_fail =>
    rintro - ns stop ⟨⟩
    exact .nil rfl
  | star_empty =>
    rintro - ns stop ⟨⟩
    exact .nil rfl
  | star_more _ _ _ ih₁ ih₂ =>
    intro hless ns stop heq
    obtain ⟨⟨ms, stop'⟩, rfl, hr⟩ := Option.map_eq_some_iff.mp heq
    cases hr
    have hfirst := ih₁ (hless.child List.mem_cons_self) _ _ rfl
    exact .append rfl (hfirst.of_heads rfl fun _ => id) (ih₂ hless _ _ rfl)
  | plus_fail => rintro - ns stop ⟨⟩
  | plus_more _ _ ih₁ ih₂ =>
    intro hless ns stop heq
    obtain ⟨⟨ms, stop'⟩, rfl, hr⟩ := Option.map_eq_some_iff.mp heq
    cases hr
    have hfirst := ih₁ (hless.child List.mem_cons_self) _ _ rfl
    have hrest := ih₂ (Term.every_iff.mpr ⟨rfl, fun c hc => hless.child hc⟩) _ _ rfl
    exact .append rfl (hfirst.of_heads rfl fun _ => id) (hrest.of_heads rfl fun _ => id)
  | ahead =>
    intro _ ns stop heq
    obtain ⟨r, -, hr⟩ := Option.map_eq_some_iff.mp heq
    cases hr
    exact .nil rfl
  | notAhead =>
    intro _ ns stop heq
    split at heq
    · cases heq
    · cases heq
      exact .nil rfl
  | ref_none => rintro - ns stop ⟨⟩
  | ref_rule hid hrule _ ih =>
    intro _ ns stop heq
    obtain ⟨⟨ms, stop'⟩, rfl, hr⟩ := Option.map_eq_some_iff.mp heq
    cases hr
    have hkeeps := keepsHeads_of_hasHeads hg hrule
    exact heads_ref hid hrule hkeeps (ih (isHeadless_body hkeeps) _ _ rfl)
  | @node f kind t pos a _ ih =>
    intro hless ns stop heq
    obtain ⟨⟨ms, stop'⟩, rfl, hr⟩ := Option.map_eq_some_iff.mp heq
    cases hr
    have hbody := ih (hless.child List.mem_cons_self) _ _ rfl
    refine .of_not_seq rfl (fun n hn => ?_) fun kw _ _ n hn => ?_
    · obtain rfl := List.mem_singleton.mp hn
      exact isHeaded_node (Option.isNone_iff_eq_none.mp hless.self) hbody.headed
    · obtain rfl := List.mem_singleton.mp hn
      rfl
  | scope _ ih =>
    intro hless ns stop heq
    exact (ih (hless.child List.mem_cons_self) ns stop heq).of_heads rfl fun _ => id
  | gate_open _ _ ih =>
    intro hless ns stop heq
    exact (ih (hless.child List.mem_cons_self) ns stop heq).of_heads rfl fun _ => id
  | gate_shut => rintro - ns stop ⟨⟩
  | fold_fail => rintro - ns stop ⟨⟩
  | fold_rounds _ _ ih₁ ih₂ =>
    intro hless ns stop heq
    have hoperand := ih₁ (hless.child List.mem_cons_self) _ _ rfl
    obtain ⟨hheaded, hhidden⟩ := ih₂ (isHeadless_ofTails hless) hoperand.headed ns stop heq
    exact .of_not_seq rfl hheaded fun kw hkw hhide => hhidden kw (hoperand.hidden kw hkw hhide)
  | rounds_spent =>
    rintro - hdone ns stop ⟨⟩
    exact ⟨hdone, fun _ => id⟩
  | rounds_end =>
    rintro - hdone ns stop ⟨⟩
    exact ⟨hdone, fun _ => id⟩
  | @rounds_more f tails left pos ns kind ms mid a _ hround _ ih₁ ih₂ =>
    intro hless hdone ns' stop heq
    obtain ⟨tail, htail, ms', hms⟩ := hround.exists_tail
    obtain ⟨rfl, rfl⟩ := Match.node.inj (List.cons_eq_cons.mp hms).1
    have hkind : headKeyword? tail.1 = none := by
      have hnode : IsHeadless (.node tail.1 tail.2) := hless.child (List.mem_map_of_mem htail)
      exact Option.isNone_iff_eq_none.mp hnode.self
    have hheaded := (ih₁ hless _ mid rfl).headed
    rcases hheaded _ (List.mem_singleton_self _) with _ | ⟨-, hms⟩
    have hnode : (Match.node tail.1 (ns ++ ms)).IsHeaded := isHeaded_node hkind fun n hn => by
      rcases List.mem_append.mp hn with hn | hn
      · exact hdone n hn
      · exact hms n hn
    obtain ⟨hall, hhidden⟩ := ih₂ hless (fun n hn => by
      obtain rfl := List.mem_singleton.mp hn
      exact hnode) ns' stop heq
    exact ⟨hall, fun kw _ => hhidden kw fun n hn => by
      obtain rfl := List.mem_singleton.mp hn
      rfl⟩

end Peg.Parses
end Packrat
