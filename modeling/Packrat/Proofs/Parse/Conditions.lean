/-
# Every `let` stands in a condition

In every tree that parsing gives, a `let` expression stands in the condition of an `if` or a
`while`, or in the guard of a match arm (`Tree.InCondition`):

| node | its condition stands behind |
| --- | --- |
| `IF_EXPR` | `if` |
| `WHILE_EXPR` | `while` |
| `MATCH_GUARD` | `if` |

Between the first token of the condition and the `let` no bracket is left open, but for one case.
An attribute opens a bracket behind which `let` is still allowed if it was before.  There the `let`
stands in the value of the attribute, and no bracket is left open since the value began
(`Tree.InValue`).  Such a tree is shown below (`Parse.let_in_attribute`).

Trivia between the trees of matches are neither brackets nor keywords, so a tree keeps what is
open as its match does, and the place of a `let` in the tree is told by going down to it.
-/

import Packrat.Proofs.Language.Condition
import Packrat.Proofs.Parse.Heads

namespace Packrat

open Peg Packrat.Language

namespace Tree

/-! ## Conditions in trees -/

/-- The tree stands right behind a token in a node of a kind, trivia apart.  The node stands in
another tree, of which some leaves come before. -/
def StandsBehind (kind kw : Kind) (c : Tree) (leaves : List (Kind × String)) (t : Tree) : Prop :=
  ∃ start before text between after,
    (node kind (before ++ token kw text :: between ++ c :: after)).Behind start t ∧
    (∀ u ∈ between, u.isNode = false ∧ u.kind.isTrivia = true) ∧
    leaves = start ++ leavesAll (before ++ token kw text :: between)

/-- The nodes that have a condition, with the keyword before it. -/
def conditionKeywords : List (Kind × Kind) :=
  [(.ifExpr, .ifKw), (.whileExpr, .whileKw), (.matchGuard, .ifKw)]

/-- The tree is a condition in another one, behind some leaves of that. -/
def IsCondition (c : Tree) (leaves : List (Kind × String)) (t : Tree) : Prop :=
  ∃ entry ∈ conditionKeywords, c.StandsBehind entry.1 entry.2 leaves t

/-- The tree is the value of an attribute in another one, behind some leaves of that. -/
def IsValue (v : Tree) (leaves : List (Kind × String)) (t : Tree) : Prop :=
  v.StandsBehind .metaItem .eq leaves t

/-- The tree stands in the value of an attribute, and no bracket is left open since the value
began. -/
def InValue (l : Tree) (leaves : List (Kind × String)) (t : Tree) : Prop :=
  ∃ v outer inner, leaves = outer ++ inner ∧ v.IsValue outer t ∧ l.Behind inner v ∧
    unclosed [] (inner.map (·.1)) = []

/-- The tree stands in a condition, and no bracket is left open since the condition began, or the
tree is in the value of an attribute there. -/
def InCondition (l : Tree) (leaves : List (Kind × String)) (t : Tree) : Prop :=
  ∃ c outer inner, leaves = outer ++ inner ∧ c.IsCondition outer t ∧ l.Behind inner c ∧
    (unclosed [] (inner.map (·.1)) = [] ∨ l.InValue inner c)

variable {kind kw : Kind} {scope : Scope} {last : Option Kind} {l c t : Tree}
  {before after : List Tree} {leaves : List (Kind × String)}

theorem StandsBehind.inner (h : c.StandsBehind kind kw leaves t) {kind' : Kind} :
    c.StandsBehind kind kw (leavesAll before ++ leaves) (node kind' (before ++ t :: after)) := by
  obtain ⟨start, before', text, between, after', hbehind, htrivia, rfl⟩ := h
  exact ⟨_, before', text, between, after', .inner hbehind, htrivia, by rw [List.append_assoc]⟩

theorem InValue.inner (h : l.InValue leaves t) {kind' : Kind} :
    l.InValue (leavesAll before ++ leaves) (node kind' (before ++ t :: after)) := by
  obtain ⟨v, outer, inner, rfl, hvalue, hrest⟩ := h
  exact ⟨v, _, inner, (List.append_assoc ..).symm, StandsBehind.inner hvalue, hrest⟩

theorem InCondition.inner (h : l.InCondition leaves t) {kind' : Kind} :
    l.InCondition (leavesAll before ++ leaves) (node kind' (before ++ t :: after)) := by
  obtain ⟨c, outer, inner, rfl, ⟨entry, hentry, hcondition⟩, hrest⟩ := h
  exact ⟨c, _, inner, (List.append_assoc ..).symm, ⟨entry, hentry, hcondition.inner⟩, hrest⟩

/-! ## Trees that keep what is open -/

mutual

/-- Every `let` in the tree is in a condition in which no bracket is open, or in such a value of an
attribute in a condition. -/
def KeepsLets (scope : Scope) : Tree → Prop
  | token .. => True
  | node kind children =>
    (kind = .letExpr → scope = some []) ∧ KeepsLetsIn kind scope none children

/-- So it is in the trees under a node of a kind, behind a token. -/
def KeepsLetsIn (kind : Kind) (scope : Scope) (last : Option Kind) : List Tree → Prop
  | [] => True
  | token kind' text :: ts =>
    KeepsLetsIn kind (scope.past (token kind' text).marks) (nextToken last kind') ts
  | node kind' children :: ts =>
    ((node kind' children).KeepsLets scope ∨
      beginsScope kind last = true ∧ (node kind' children).KeepsLets (scope.enter kind)) ∧
    KeepsLetsIn kind (scope.past (node kind' children).marks) none ts

end

/-- The last token that is no trivia, if it stands right behind these trees. -/
def lastToken (last : Option Kind) : List Tree → Option Kind
  | [] => last
  | token kind _ :: ts => lastToken (nextToken last kind) ts
  | node .. :: ts => lastToken none ts

/-- A tree among others keeps what is open before it, or a condition begins with it. -/
theorem KeepsLetsIn.keepsLets (h : KeepsLetsIn kind scope last (before ++ c :: after)) :
    c.KeepsLets (scope.past (marksAll before)) ∨ beginsScope kind (lastToken last before) = true ∧
      c.KeepsLets ((scope.past (marksAll before)).enter kind) := by
  induction before generalizing scope last with
  | nil =>
    rw [marksAll, Scope.past_nil]
    cases c with
    | token kind' text => exact .inl trivial
    | node kind' children => exact h.1
  | cons t before ih =>
    rw [marksAll, Scope.past_append]
    cases t with
    | token kind' text => exact ih h
    | node kind' children => exact ih h.2

/-- Behind the last token stand trivia only. -/
theorem exists_lastToken {ts : List Tree} (h : lastToken last ts = some kw) :
    (∃ before text between, ts = before ++ token kw text :: between ∧
        ∀ u ∈ between, u.isNode = false ∧ u.kind.isTrivia = true) ∨
      last = some kw ∧ ∀ u ∈ ts, u.isNode = false ∧ u.kind.isTrivia = true := by
  induction ts generalizing last with
  | nil => exact .inr ⟨h, by simp⟩
  | cons t ts ih =>
    have hlater : ∀ {last}, lastToken last ts = some kw → last ≠ some kw →
        ∃ before text between, t :: ts = before ++ token kw text :: between ∧
          ∀ u ∈ between, u.isNode = false ∧ u.kind.isTrivia = true := by
      intro last' h' hne
      obtain ⟨before, text, between, rfl, htrivia⟩ := (ih h').resolve_right fun hsame => hne hsame.1
      exact ⟨t :: before, text, between, rfl, htrivia⟩
    cases t with
    | node kind' children => exact .inl (hlater h (by simp))
    | token kind' text =>
      rcases ih h with ⟨before, text', between, rfl, htrivia⟩ | ⟨hlast, htrivia⟩
      · exact .inl ⟨token kind' text :: before, text', between, rfl, htrivia⟩
      · unfold nextToken at hlast
        split at hlast
        · next hkind =>
          refine .inr ⟨hlast, fun u hu => ?_⟩
          rcases List.mem_cons.mp hu with rfl | hu
          · exact ⟨rfl, hkind⟩
          · exact htrivia u hu
        · cases hlast
          exact .inl ⟨[], text, ts, rfl, htrivia⟩

/-- Where a condition begins, the tree stands behind the keyword. -/
theorem standsBehind_of_begins (h : beginsScope kind (lastToken none before) = true) :
    ∃ kw, scopeKeyword? kind = some kw ∧
      c.StandsBehind kind kw (leavesAll before) (node kind (before ++ c :: after)) := by
  obtain ⟨hsome, heq⟩ := Bool.and_eq_true_iff.mp h
  obtain ⟨kw, hkw⟩ := Option.isSome_iff_exists.mp hsome
  rw [hkw, beq_iff_eq] at heq
  refine ⟨kw, heq.symm, ?_⟩
  rcases exists_lastToken hkw with ⟨before', text, between, rfl, htrivia⟩ | ⟨hnone, -⟩
  · exact ⟨[], before', text, between, after, .self, htrivia, rfl⟩
  · cases hnone

/-- What begins behind a keyword is a condition or the value of an attribute. -/
theorem scopeKeyword?_cases (h : scopeKeyword? kind = some kw) :
    kind = .metaItem ∧ kw = .eq ∨ kind ≠ .metaItem ∧ (kind, kw) ∈ conditionKeywords := by
  unfold scopeKeyword? at h
  split at h <;> cases h <;> simp [conditionKeywords]

theorem unclosed_leaves_inner (opened : List Kind) (before : List Tree)
    (leaves : List (Kind × String)) :
    unclosed opened ((leavesAll before ++ leaves).map (·.1)) =
      unclosed (Mark.openAfter opened (marksAll before)) (leaves.map (·.1)) := by
  rw [List.map_append, unclosed_append, openAfter_marksAll]

/-- **Where a `let` stands in a tree that keeps what is open**: with no bracket left open since the
scope around the tree began, or in a condition of the tree, or in the value of an attribute. -/
theorem KeepsLets.stands {children : List Tree} (h : t.KeepsLets scope)
    (hbehind : (node .letExpr children).Behind leaves t) :
    (∃ opened, scope = some opened ∧ unclosed opened (leaves.map (·.1)) = []) ∨
      (node .letExpr children).InCondition leaves t ∨
      scope.isSome = true ∧ (node .letExpr children).InValue leaves t := by
  induction hbehind generalizing scope with
  | self => exact .inl ⟨[], h.1 rfl, rfl⟩
  | @inner kind before c after leaves hbehind ih =>
    rcases KeepsLetsIn.keepsLets h.2 with hkeeps | ⟨hbegins, hkeeps⟩
    · -- the tree keeps what is open before it
      rcases ih hkeeps with ⟨opened, hopened, hclosed⟩ | hcondition | ⟨hsome, hvalue⟩
      · obtain ⟨opened', rfl, rfl⟩ := Option.map_eq_some_iff.mp hopened
        exact .inl ⟨opened', rfl, by rw [unclosed_leaves_inner, hclosed]⟩
      · exact .inr (.inl hcondition.inner)
      · exact .inr (.inr ⟨by simpa [Scope.past] using hsome, hvalue.inner⟩)
    · obtain ⟨kw, hkw, hstands⟩ : ∃ kw, scopeKeyword? kind = some kw ∧
          c.StandsBehind kind kw (leavesAll before) (node kind (before ++ c :: after)) :=
        standsBehind_of_begins hbegins
      rcases scopeKeyword?_cases hkw with ⟨rfl, rfl⟩ | ⟨hkind, hmem⟩
      · -- the value of an attribute begins with it
        rcases ih hkeeps with ⟨opened, hopened, hclosed⟩ | hcondition | ⟨hsome, hvalue⟩
        · obtain ⟨opened', hscope, rfl⟩ := Option.map_eq_some_iff.mp hopened
          have hsome : (scope.past (marksAll before)).isSome = true := by rw [hscope]; rfl
          exact .inr (.inr ⟨by simpa [Scope.past] using hsome, c, _, _, rfl, hstands, hbehind,
            hclosed⟩)
        · exact .inr (.inl hcondition.inner)
        · exact .inr (.inr ⟨by simpa [Scope.past, Scope.enter] using hsome, hvalue.inner⟩)
      · -- a condition begins with it
        rw [Scope.enter, if_neg hkind] at hkeeps
        have hcondition : c.IsCondition (leavesAll before) (node kind (before ++ c :: after)) :=
          ⟨(kind, kw), hmem, hstands⟩
        rcases ih hkeeps with ⟨opened, hopened, hclosed⟩ | hinner | ⟨-, hvalue⟩
        · cases hopened
          exact .inr (.inl ⟨c, _, _, rfl, hcondition, hbehind, .inl hclosed⟩)
        · exact .inr (.inl hinner.inner)
        · exact .inr (.inl ⟨c, _, _, rfl, hcondition, hbehind, .inr hvalue⟩)

/-! ## Trees of matches -/

variable {tokens : Array Token}

/-- Trivia change nothing. -/
theorem keepsLetsIn_map_ofTrivia (vs : List Trivia) {ts : List Tree}
    (h : KeepsLetsIn kind scope last ts) :
    KeepsLetsIn kind scope last (vs.map ofTrivia ++ ts) := by
  induction vs with
  | nil => exact h
  | cons v vs ih =>
    have hmarks : (ofTrivia v).marks = [] := by
      simpa [marksAll] using marksAll_map_ofTrivia [v]
    have htrivia : v.kind.kind.isTrivia = true := by cases v.kind <;> decide
    change KeepsLetsIn kind (scope.past (ofTrivia v).marks) (nextToken last v.kind.kind) _
    rw [hmarks, Scope.past_nil, nextToken, if_pos htrivia]
    exact ih

mutual

/-- The tree of a match keeps what is open as the match does. -/
theorem Of.keepsLets : ∀ (n : Match) {scope : Scope} {t : Tree}, Of tokens n t →
    (∀ l ∈ n.leaves, IsInside tokens l) → n.KeepsLets scope → t.KeepsLets scope
  | .token index kind part, scope, t, hof, _, _ => by
    cases hof
    trivial
  | .node kind children, scope, t, hof, hinside, hn => by
    cases hof
    exact ⟨hn.1, keepsLetsIn_ofMatches children kind scope none _ hinside hn.2⟩

theorem keepsLetsIn_ofMatches : ∀ (ns : List Match) (kind : Kind) (scope : Scope)
    (last : Option Kind) (done : Nat), (∀ l ∈ Match.leavesAll ns, IsInside tokens l) →
    Match.KeepsLetsIn kind scope last ns →
    KeepsLetsIn kind scope last (ofMatches tokens done ns).1
  | [], _, _, _, _, _, _ => trivial
  | n :: ns, kind, scope, last, done, hinside, h => by
    have hn : ∀ l ∈ n.leaves, IsInside tokens l := fun l hl =>
      hinside l (List.mem_append_left _ hl)
    have hns : ∀ l ∈ Match.leavesAll ns, IsInside tokens l := fun l hl =>
      hinside l (List.mem_append_right _ hl)
    obtain ⟨vs, t, hfirst, hof⟩ := ofMatch_eq hn done
    have hmarks := hof.marks_eq hn
    have hkeeps : ∀ scope, n.KeepsLets scope → t.KeepsLets scope :=
      fun scope => Of.keepsLets n hof hn
    have hrest : ∀ scope last, Match.KeepsLetsIn kind scope last ns →
        KeepsLetsIn kind scope last (ofMatches tokens (ofMatch tokens done n).2 ns).1 :=
      fun scope last => keepsLetsIn_ofMatches ns kind scope last _ hns
    rw [ofMatches_cons, hfirst, List.append_assoc, List.singleton_append]
    refine keepsLetsIn_map_ofTrivia vs ?_
    cases hof with
    | token =>
      rw [KeepsLetsIn, hmarks]
      exact hrest _ _ h
    | node =>
      rw [KeepsLetsIn, hmarks]
      exact ⟨h.1.imp (hkeeps _) fun hbegins => ⟨hbegins.1, hkeeps _ hbegins.2⟩, hrest _ _ h.2⟩

end

/-- Outside all conditions nothing is open. -/
theorem keepsLets_of_mem {ns : List Match} (hkind : scopeKeyword? kind = none)
    (h : Match.KeepsLetsIn kind none last ns) : ∀ n ∈ ns, n.KeepsLets none := by
  induction ns generalizing last with
  | nil => simp
  | cons n ns ih =>
    intro n' hn'
    cases n with
    | token index kind' part =>
      rcases List.mem_cons.mp hn' with rfl | hn'
      · trivial
      · exact ih h n' hn'
    | node kind' children =>
      rcases List.mem_cons.mp hn' with rfl | hn'
      · refine h.1.resolve_right fun hbegins => ?_
        cases last <;> simp [beginsScope, hkind] at hbegins
      · exact ih h.2 n' hn'

/-! ## Places in trees -/

mutual

/-- The tree and all that stands in it, each with the leaves before. -/
def places : Tree → List (List (Kind × String) × Tree)
  | token kind text => [([], token kind text)]
  | node kind children => ([], node kind children) :: placesAll [] children

/-- All that stands in some trees, behind some leaves. -/
def placesAll (done : List (Kind × String)) : List Tree → List (List (Kind × String) × Tree)
  | [] => []
  | t :: ts => t.places.map (fun place => (done ++ place.1, place.2)) ++
      placesAll (done ++ t.leaves) ts

end

mutual

theorem behind_of_mem_places : ∀ (t : Tree) {u : Tree} {leaves : List (Kind × String)},
    (leaves, u) ∈ t.places → u.Behind leaves t
  | .token kind text, u, leaves, h => by
    cases List.mem_singleton.mp h
    exact .self
  | .node kind children, u, leaves, h => by
    rcases List.mem_cons.mp h with heq | h
    · cases heq
      exact .self
    · exact behind_of_mem_placesAll children [] h

theorem behind_of_mem_placesAll : ∀ (ts before : List Tree) {kind : Kind} {u : Tree}
    {leaves : List (Kind × String)}, (leaves, u) ∈ placesAll (leavesAll before) ts →
    u.Behind leaves (node kind (before ++ ts))
  | [], _, _, _, _, h => by cases h
  | t :: ts, before, kind, u, leaves, h => by
    rcases List.mem_append.mp h with h | h
    · obtain ⟨place, hplace, heq⟩ := List.mem_map.mp h
      cases heq
      exact .inner (behind_of_mem_places t hplace)
    · have hdone : leavesAll before ++ t.leaves = leavesAll (before ++ [t]) := by
        simp [leavesAll]
      rw [hdone] at h
      have hbehind : u.Behind leaves (node kind (before ++ [t] ++ ts)) :=
        behind_of_mem_placesAll ts (before ++ [t]) h
      simpa using hbehind

end

/-- Behind each keyword of a condition that is among some tokens a bracket is left open. -/
def allOpen (kinds : List Kind) : Bool :=
  kinds.tails.all fun behind => conditionKeywords.all fun entry =>
    behind.head? != some entry.2 || unclosed [] behind.tail != []

/-- Trivia open and close nothing. -/
theorem unclosed_trivia {opened : List Kind} {ts : List Tree}
    (h : ∀ u ∈ ts, u.isNode = false ∧ u.kind.isTrivia = true) :
    unclosed opened ((leavesAll ts).map (·.1)) = opened := by
  induction ts with
  | nil => rfl
  | cons u ts ih =>
    obtain ⟨hu, hts⟩ := List.forall_mem_cons.mp h
    cases u with
    | node kind children => cases hu.1
    | token kind text =>
      have hplain : (kind.isOpening || kind.isClosing) = false := by
        have htrivia : kind.isTrivia = true := hu.2
        revert htrivia
        cases kind <;> decide
      exact (congrArg (unclosed · _) (turn_of_not_bracket hplain)).trans (ih hts)

/-- Where a bracket is left open behind each keyword, one is left open since a condition began. -/
theorem IsCondition.unclosed_ne_nil {outer inner : List (Kind × String)}
    (h : c.IsCondition outer t) (hopen : allOpen ((outer ++ inner).map (·.1)) = true) :
    unclosed [] (inner.map (·.1)) ≠ [] := by
  obtain ⟨⟨kind, kw⟩, hentry, start, before, text, between, after, -, htrivia, rfl⟩ := h
  have hsuffix : kw :: ((leavesAll between).map (·.1) ++ inner.map (·.1)) <:+
      ((start ++ leavesAll (before ++ token kw text :: between)) ++ inner).map (·.1) :=
    ⟨(start ++ leavesAll before).map (·.1), by simp [leavesAll, leaves, leavesBefore]⟩
  have hbehind := List.all_eq_true.mp hopen _ ((List.mem_tails _ _).mpr hsuffix)
  have hne := List.all_eq_true.mp hbehind (kind, kw) hentry
  rw [List.tail_cons, unclosed_append, unclosed_trivia htrivia] at hne
  simpa using hne

end Tree

namespace Parse

/-- Every `let` of the parse stands in a condition. -/
def KeepsLets (p : Parse) : Prop := ∀ leaves children,
  (Tree.node .letExpr children).Behind leaves p.tree →
    (Tree.node .letExpr children).InCondition leaves p.tree

variable {text : List Char} {s : TokenStream}

/-- **In a tree over the tokens of a text every `let` stands in a condition**, whatever rule its
root is matched by. -/
theorem run_keepsLets (hs : TokenStream.ofText text = .ok s) {root : Term}
    (hroot : ∀ g, ∀ t ∈ root.parts, Language.isPlain g t = true)
    (hkeeps : ∀ g, Language.grammar = .ok g → g.keepsLets .sourceFile .clear root = true)
    {options : ParseOptions} {memo : Memo} {p : Parse}
    (h : (run root options s memo).1 = .ok p) : p.KeepsLets := by
  obtain ⟨m, ns, stop, children, hg, hparses, htree, hinside, hmem⟩ := exists_children hs hroot h
  have hgoal := hparses.keepsLets (hasLetsInConditions_grammar hg) (isLadder_grammar hg)
    (hasTameRules_grammar hg)
  -- outside all conditions nothing is open, and the flag is clear
  have hclear : Stance.clear.Holds {} none := rfl
  have hmatches : ∀ n ∈ ns, n.KeepsLets none :=
    Tree.keepsLets_of_mem rfl (hgoal.keeps (hkeeps _ hg) hclear rfl)
  intro leaves inner hbehind
  rw [htree] at hbehind ⊢
  cases hbehind with
  | @inner _ before c after leaves hbehind =>
    rcases hmem c (by simp) with ⟨kind, text, rfl⟩ | ⟨n, hn, hof⟩
    · cases hbehind
    · have htree := hof.keepsLets n (fun l hl => hinside l (Tree.mem_leavesAll hn l hl))
        (hmatches n hn)
      rcases htree.stands hbehind with ⟨opened, hnone, -⟩ | hcondition | ⟨hsome, -⟩
      · cases hnone
      · exact hcondition.inner
      · cases hsome

/-- **Every `let` stands in a condition**: in that of an `if` or a `while` or in the guard of a
match arm, where between the first token of the condition and the `let` no bracket is left open.
In the value of an attribute in a condition, none is left open since the value began.  This is so
in every tree of a file or of another construct, whatever the options and whatever a table of
memos held before. -/
theorem parsing_keeps_lets (text : List Char) (options : ParseOptions) :
    (∀ p, ofText text options = .ok p → p.KeepsLets) ∧
      (∀ s memo p, TokenStream.ofText text = .ok s → (ofStream options s memo).1 = .ok p →
        p.KeepsLets) ∧
      ∀ entry p, ofEntry entry text options = .ok p → p.KeepsLets := by
  have hstream : ∀ s memo p, TokenStream.ofText text = .ok s →
      (ofStream options s memo).1 = .ok p → p.KeepsLets := by
    intro s memo p hs h
    exact run_keepsLets hs (fun g => Language.isPlain_rule Language.fileRule.name)
      (fun g => Language.keepsLets_rule) h
  refine ⟨fun p h => ?_, hstream, fun entry p h => ?_⟩
  · obtain ⟨s, hs, hrun⟩ := exists_stream h
    exact hstream s {} p hs hrun
  · obtain ⟨s, hs, hrun⟩ := exists_stream h
    exact run_keepsLets hs (fun g => Language.isPlain_rule_ended entry.ruleName)
      (fun g hg => Language.keepsLets_rule_ended hg entry) hrun

/-- A constant with a `let` in each kind of condition. -/
def letsText : List Char :=
  ("const A:_=if let _=b\x7bwhile let _=c\x7b" ++
    "match d\x7b_ if let _=e=>f\x7d\x7d\x7d;").toList

/-- The tree of a name alone. -/
def nameOutline (name : String) : String :=
  "(PATH_EXPR (PATH (PATH_SEGMENT (NAME_REF " ++ name ++ "))))"

/-- The tree of a `let`. -/
def letOutline (name : String) : String :=
  "(LET_EXPR let (WILDCARD_PAT _) = " ++ nameOutline name ++ ")"

/-- The tree of the text in brackets. -/
def letsOutline : String :=
  "(SOURCE_FILE (CONST const (NAME A) : (INFER_TYPE _) = (IF_EXPR if " ++ letOutline "b" ++
  " (BLOCK_EXPR \x7b (EXPR_STMT (WHILE_EXPR while " ++ letOutline "c" ++
  " (BLOCK_EXPR \x7b (EXPR_STMT (MATCH_EXPR match " ++ nameOutline "d" ++
  " (MATCH_ARM_LIST \x7b (MATCH_ARM (WILDCARD_PAT _) (MATCH_GUARD if " ++ letOutline "e" ++
  ") => " ++ nameOutline "f" ++ ") \x7d))) \x7d))) \x7d)) ;))"

/-- The text has this tree, as a file and alone, and every `let` stands in a condition. -/
theorem parsing_keeps_lets_nested : ∃ s p q, TokenStream.ofText letsText = .ok s ∧
    ofText letsText unlimited = .ok p ∧ (ofStream unlimited s {}).1 = .ok p ∧
    ofEntry .const letsText unlimited = .ok q ∧ p.tree.outline = letsOutline ∧
    p.KeepsLets ∧ q.KeepsLets := by
  obtain ⟨p, hp, houtline⟩ :=
    ofText_of_treeWithin letsText 300 (fun tree => tree.outline = letsOutline) (by decide +kernel)
  obtain ⟨q, hq, -⟩ :=
    ofEntry_of_treeWithin .const letsText 300 (fun _ => true) (by decide +kernel)
  obtain ⟨s, hs, hrun⟩ := exists_stream hp
  obtain ⟨htext, hstream, hentry⟩ := parsing_keeps_lets letsText unlimited
  exact ⟨s, p, q, hs, hp, hrun, hq, of_decide_eq_true houtline, hstream s {} p hs hrun,
    hentry .const q hq⟩

/-- A constant with a `let` in an attribute on a parameter, in the condition of an `if`. -/
def attributeText : List Char := "const A:_=if|#[b=let _=c]_|d\x7b\x7d;".toList

/-- **In an attribute a `let` may stand in a bracket**: the text has a tree, and in it a `let` that
stands in no condition since the beginning of which no bracket is left open. -/
theorem let_in_attribute : ∃ p leaves children, ofText attributeText unlimited = .ok p ∧
    (Tree.node .letExpr children).Behind leaves p.tree ∧
    ¬ ∃ c outer inner, leaves = outer ++ inner ∧ c.IsCondition outer p.tree ∧
      (Tree.node .letExpr children).Behind inner c ∧ unclosed [] (inner.map (·.1)) = [] := by
  obtain ⟨p, hp, hplaces⟩ := ofText_of_treeWithin attributeText 300
    (fun tree => tree.places.any fun place => place.2.isNode && place.2.kind = .letExpr &&
      Tree.allOpen (place.1.map (·.1))) (by decide +kernel)
  obtain ⟨⟨leaves, l⟩, hplace, hcheck⟩ := List.any_eq_true.mp hplaces
  simp only [Bool.and_eq_true, decide_eq_true_eq] at hcheck
  obtain ⟨⟨hnode, hlet⟩, hopen⟩ := hcheck
  cases l with
  | token kind text => cases hnode
  | node kind children =>
    obtain rfl : kind = .letExpr := hlet
    refine ⟨p, leaves, children, hp, Tree.behind_of_mem_places p.tree hplace, ?_⟩
    rintro ⟨c, outer, inner, rfl, hcondition, -, hclosed⟩
    exact hcondition.unclosed_ne_nil hopen hclosed

end Parse
end Packrat
