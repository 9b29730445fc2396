/-
# No struct literal stands bare in a head

In every tree that parsing gives, the nodes for `if`, `while`, `match` and `for` have a head, and
between the first token of the head and the first token of a struct literal in it a bracket
is left open (`Tree.KeepsHead`).

| node | head |
| --- | --- |
| `IF_EXPR`, `WHILE_EXPR` | the condition, behind `if` or `while` |
| `MATCH_EXPR` | what is matched, behind `match` |
| `FOR_EXPR` | what is run over, behind `in` |

Building a tree from matches puts trivia in between, which are neither brackets nor keywords.  So
a tree has the marks of its match, and the head of a node is the tree of the head of its match.
-/

import Packrat.Proofs.Language.Head
import Packrat.Proofs.Parse.Computed
import Packrat.Proofs.Parse.Grouping

namespace Packrat

open Peg Packrat.Language

namespace Tree

/-! ## Heads in trees -/

/-- The head of a node: the first node behind the first token of its keyword. -/
def head? : Tree → Option Tree
  | .token .. => none
  | .node kind children => (headKeyword? kind).bind fun kw =>
      (children.dropWhile fun t => t.isNode || t.kind != kw).find? isNode

/-- The tree stands in another one, behind some leaves of that. -/
inductive Behind (t : Tree) : List (Kind × String) → Tree → Prop where
  | self : Behind t [] t
  | inner {kind before c after leaves} : Behind t leaves c →
    Behind t (leavesAll before ++ leaves) (.node kind (before ++ c :: after))

/-- Where a struct literal begins in the tree, a bracket of the tree is open. -/
def IsGuarded (t : Tree) : Prop :=
  ∀ leaves children, (node .recordExpr children).Behind leaves t →
    unclosed [] (leaves.map (·.1)) ≠ []

/-- A node that should have a head has one, and no struct literal stands bare in it. -/
def KeepsHead (t : Tree) : Prop :=
  t.isNode = true → (headKeyword? t.kind).isSome = true →
    ∃ head, t.head? = some head ∧ head.IsGuarded

/-! ## Marks of trees -/

mutual

/-- The marks of a tree, in order. -/
def marks : Tree → List Mark
  | .token kind _ => Mark.ofToken kind
  | .node kind children => Mark.ofNode kind ++ marksAll children

/-- The marks of some trees. -/
def marksAll : List Tree → List Mark
  | [] => []
  | t :: ts => t.marks ++ marksAll ts

end

theorem marksAll_append (ts us : List Tree) : marksAll (ts ++ us) = marksAll ts ++ marksAll us := by
  induction ts with
  | nil => rfl
  | cons t ts ih => simp [marksAll, ih]

mutual

/-- What the marks of a tree leave open its leaves do. -/
theorem openAfter_marks : ∀ (t : Tree) (opened : List Kind),
    Mark.openAfter opened t.marks = unclosed opened (t.leaves.map (·.1))
  | .token kind _, opened => Mark.openAfter_ofToken opened kind
  | .node kind children, opened => by
    rw [marks, Mark.openAfter_append, Mark.openAfter_ofNode, leaves_node]
    exact openAfter_marksAll children opened

theorem openAfter_marksAll : ∀ (ts : List Tree) (opened : List Kind),
    Mark.openAfter opened (marksAll ts) = unclosed opened ((leavesAll ts).map (·.1))
  | [], _ => rfl
  | t :: ts, opened => by
    rw [marksAll, Mark.openAfter_append, openAfter_marks t, openAfter_marksAll ts,
      ← unclosed_append, ← List.map_append]
    rfl

end

variable {t : Tree} {children : List Tree} {leaves : List (Kind × String)}

/-- The mark of a struct literal in a tree, and what is open there. -/
theorem Behind.exists_marks (h : (node .recordExpr children).Behind leaves t) :
    ∃ word word', t.marks = word ++ .record :: word' ∧
      ∀ opened, Mark.openAfter opened word = unclosed opened (leaves.map (·.1)) := by
  induction h with
  | self => exact ⟨[], marksAll children, rfl, fun _ => rfl⟩
  | @inner kind before c after leaves _ ih =>
    obtain ⟨word, word', hmarks, hopen⟩ := ih
    refine ⟨Mark.ofNode kind ++ marksAll before ++ word, word' ++ marksAll after, ?_, ?_⟩
    · simp [marks, marksAll_append, marksAll, hmarks]
    · intro opened
      rw [Mark.openAfter_append, Mark.openAfter_append, Mark.openAfter_ofNode, openAfter_marksAll,
        hopen, List.map_append, unclosed_append]

theorem isGuarded_of_marks (h : Mark.Guarded [] t.marks) : t.IsGuarded := by
  intro leaves children hbehind
  obtain ⟨word, word', hmarks, hopen⟩ := hbehind.exists_marks
  rw [← hopen]
  rw [hmarks] at h
  exact h.openAfter_ne_nil

/-! ## Trees of matches -/

variable {tokens : Array Token} {ns ms : List Match} {n : Match} {kw : Kind}

theorem marksAll_map_ofTrivia (vs : List Trivia) : marksAll (vs.map ofTrivia) = [] := by
  induction vs with
  | nil => rfl
  | cons v vs ih =>
    rw [List.map_cons, marksAll, ih]
    cases hkind : v.kind <;> simp [ofTrivia, marks, TriviaKind.kind, hkind] <;> rfl

mutual

/-- Building a tree keeps the marks. -/
theorem marksAll_ofMatch : ∀ (n : Match) (done : Nat), (∀ l ∈ n.leaves, IsInside tokens l) →
    marksAll (ofMatch tokens done n).1 = n.marks
  | .token index kind part, done, hinside => by
    have hlt : index < tokens.size := hinside (.token index kind part) (by simp [Match.leaves])
    rw [ofMatch, Array.getElem?_eq_getElem hlt]
    simp [triviaUpTo, marksAll_append, marksAll_map_ofTrivia, marksAll, marks, Match.marks]
  | .node kind children, done, hinside => by
    rw [ofMatch]
    cases Match.firstPosOf? children with
    | none => simp [marksAll, marks, Match.marks, marksAll_ofMatches children done hinside]
    | some first =>
      simp [triviaUpTo, marksAll_append, marksAll_map_ofTrivia, marksAll, marks, Match.marks,
        marksAll_ofMatches children _ hinside]

theorem marksAll_ofMatches : ∀ (ns : List Match) (done : Nat),
    (∀ l ∈ Match.leavesAll ns, IsInside tokens l) →
    marksAll (ofMatches tokens done ns).1 = Match.marksAll ns
  | [], _, _ => rfl
  | n :: ns, done, hinside => by
    have hn : ∀ l ∈ n.leaves, IsInside tokens l := fun l hl =>
      hinside l (List.mem_append_left _ hl)
    have hns : ∀ l ∈ Match.leavesAll ns, IsInside tokens l := fun l hl =>
      hinside l (List.mem_append_right _ hl)
    rw [ofMatches, marksAll_append, marksAll_ofMatch n done hn, marksAll_ofMatches ns _ hns,
      Match.marksAll]

end

theorem Of.marks_eq (hof : Of tokens n t) (hinside : ∀ l ∈ n.leaves, IsInside tokens l) :
    t.marks = n.marks := by
  cases hof with
  | token => rfl
  | node => rw [marks, Match.marks, marksAll_ofMatches _ _ hinside]

theorem ofMatches_append (done : Nat) (ns ms : List Match) :
    (ofMatches tokens done (ns ++ ms)).1 = (ofMatches tokens done ns).1 ++
      (ofMatches tokens (ofMatches tokens done ns).2 ms).1 := by
  induction ns generalizing done with
  | nil => rfl
  | cons n ns ih => simp only [List.cons_append, ofMatches, ih, List.append_assoc]

theorem ofMatches_cons (done : Nat) (n : Match) (ns : List Match) :
    (ofMatches tokens done (n :: ns)).1 = (ofMatch tokens done n).1 ++
      (ofMatches tokens (ofMatch tokens done n).2 ns).1 := rfl

/-! ## From heads of matches to heads of trees -/

theorem kind_ofTrivia_ne (hkw : kw ∈ headKeywords) (v : Trivia) : (ofTrivia v).kind ≠ kw := by
  rintro rfl
  cases hkind : v.kind <;> simp [ofTrivia, Tree.kind, TriviaKind.kind, hkind] at hkw <;>
    revert hkw <;> decide

/-- The head is found behind the keyword, whatever stands before it and between the two. -/
theorem find?_dropWhile {text : String} {us vs ws : List Tree}
    (hus : ∀ u ∈ us, (u.isNode || u.kind != kw) = true) (hvs : ∀ v ∈ vs, v.isNode = false)
    (ht : t.isNode = true) :
    ((us ++ .token kw text :: (vs ++ t :: ws)).dropWhile fun u => u.isNode || u.kind != kw).find?
      isNode = some t := by
  have hkeyword : ((Tree.token kw text).isNode || (Tree.token kw text).kind != kw) = false := by
    simp [isNode, Tree.kind]
  have hnone : vs.find? isNode = none := List.find?_eq_none.mpr fun v hv => by simp [hvs v hv]
  rw [List.dropWhile_append_of_pos hus, List.dropWhile_cons_of_neg (by simp [hkeyword]),
    List.find?_cons_of_neg (by simp [isNode]), List.find?_append, hnone, Option.none_or,
    List.find?_cons_of_pos ht]

/-- The trees of matches that are no tokens of the keyword are none either. -/
theorem not_keyword_of_mem (hkw : kw ∈ headKeywords) (hns : ∀ n ∈ ns, n.isToken kw = false)
    {done : Nat} (hinside : ∀ l ∈ Match.leavesAll ns, IsInside tokens l) :
    ∀ u ∈ (ofMatches tokens done ns).1, (u.isNode || u.kind != kw) = true := by
  intro u hu
  rcases of_of_mem hinside hu with ⟨v, rfl⟩ | ⟨n, hn, hof⟩
  · simp [kind_ofTrivia_ne hkw v]
  · have hn := hns n hn
    cases hof with
    | token => simpa [Match.isToken, isNode, Tree.kind] using hn
    | node => rfl

/-- The head of a match gives the head of its tree. -/
theorem exists_find?_of_hasHead (hkw : kw ∈ headKeywords) (h : Match.HasHead kw ns) (done : Nat)
    (hinside : ∀ l ∈ Match.leavesAll ns, IsInside tokens l) :
    ∃ head, (((ofMatches tokens done ns).1.dropWhile fun u => u.isNode || u.kind != kw).find?
      isNode) = some head ∧ head.IsGuarded := by
  obtain ⟨before, index, part, kind, children, after, rfl, hbefore, hguarded⟩ := h
  have hin : ∀ n ∈ before ++ .token index kw part :: .node kind children :: after,
      ∀ l ∈ n.leaves, IsInside tokens l := fun n hn l hl => hinside l (mem_leavesAll hn l hl)
  obtain ⟨vs, keyword, hkeyword, hof⟩ := ofMatch_eq
    (hin (.token index kw part) (by simp)) (ofMatches tokens done before).2
  obtain ⟨vs', head, hhead, hof'⟩ := ofMatch_eq (hin (.node kind children) (by simp))
    (ofMatch tokens (ofMatches tokens done before).2 (.token index kw part)).2
  have hguard : head.IsGuarded := isGuarded_of_marks (by rwa [hof'.marks_eq (hin _ (by simp))])
  rw [ofMatches_append, ofMatches_cons, ofMatches_cons, hkeyword, hhead]
  cases hof
  cases hof'
  refine ⟨_, ?_, hguard⟩
  simp only [List.append_assoc, List.singleton_append]
  rw [← List.append_assoc]
  -- before the keyword stand trees that are none, and trivia; behind it trivia, and the head
  refine find?_dropWhile (fun u hu => ?_) (fun v hv => ?_) rfl
  · rcases List.mem_append.mp hu with hu | hu
    · exact not_keyword_of_mem hkw hbefore
        (fun l hl => hinside l (by simp [Match.leavesAll_append, hl])) u hu
    · obtain ⟨v, -, rfl⟩ := List.mem_map.mp hu
      simp [kind_ofTrivia_ne hkw v]
  · obtain ⟨v, -, rfl⟩ := List.mem_map.mp hv
    rfl

/-- The tree of a match with a head has one. -/
theorem Of.keepsHead (hof : Of tokens n t) (hn : n.IsHeaded)
    (hinside : ∀ l ∈ n.leaves, IsInside tokens l) : t.KeepsHead := by
  rcases hn with _ | ⟨hhead, -⟩
  · cases hof
    rintro ⟨⟩
  · cases hof
    intro _ hsome
    obtain ⟨kw, hkw⟩ := Option.isSome_iff_exists.mp hsome
    simp only [Tree.kind] at hkw
    simp only [head?, hkw, Option.bind_some]
    exact exists_find?_of_hasHead (mem_headKeywords hkw) (hhead kw hkw) _ hinside

end Tree

namespace Parse

/-- No struct literal stands bare in a head of the parse. -/
def KeepsHeads (p : Parse) : Prop := ∀ t : Tree, t.Within p.tree → t.KeepsHead

variable {text : List Char} {s : TokenStream}

/-- **In a tree over the tokens of a text no struct literal stands bare in a head**, whatever rule
its root is matched by. -/
theorem run_keepsHeads (hs : TokenStream.ofText text = .ok s) {root : Term}
    (hroot : ∀ g, ∀ t ∈ root.parts, Language.isPlain g t = true)
    (hless : Grammar.IsHeadless root) {options : ParseOptions} {memo : Memo} {p : Parse}
    (h : (run root options s memo).1 = .ok p) : p.KeepsHeads := by
  obtain ⟨m, ns, stop, hg, hparses, htrees⟩ := exists_matches hs hroot h
  have hheads := hparses.heads (hasHeads_grammar hg) (isLadder_grammar hg)
    (hasTameRules_grammar hg) hless ns stop rfl
  intro t ht
  rcases htrees t ht with ⟨children, rfl⟩ | ⟨kind, text, rfl⟩ | ⟨n, hn, c, hc, hof, hinside⟩
  · rintro - ⟨⟩
  · rintro ⟨⟩
  · exact hof.keepsHead ((hheads.headed n hn).of_within hc) hinside

/-- **No struct literal stands bare in a head**: between the first token of the head of an `if`,
`while`, `match` or `for` and a struct literal in it a bracket is left open.  This is so in every
tree of a file or of another construct, whatever the options and whatever a table of memos held
before. -/
theorem parsing_keeps_heads (text : List Char) (options : ParseOptions) :
    (∀ p, ofText text options = .ok p → p.KeepsHeads) ∧
      (∀ s memo p, TokenStream.ofText text = .ok s → (ofStream options s memo).1 = .ok p →
        p.KeepsHeads) ∧
      ∀ entry p, ofEntry entry text options = .ok p → p.KeepsHeads := by
  have hstream : ∀ s memo p, TokenStream.ofText text = .ok s →
      (ofStream options s memo).1 = .ok p → p.KeepsHeads := by
    intro s memo p hs h
    exact run_keepsHeads hs (fun g => Language.isPlain_rule Language.fileRule.name)
      (Grammar.isHeadless_rule Language.fileRule.name) h
  refine ⟨fun p h => ?_, hstream, fun entry p h => ?_⟩
  · obtain ⟨s, hs, hrun⟩ := exists_stream h
    exact hstream s {} p hs hrun
  · obtain ⟨s, hs, hrun⟩ := exists_stream h
    exact run_keepsHeads hs (fun g => Language.isPlain_rule_ended entry.ruleName)
      (Grammar.isHeadless_rule_ended entry.ruleName) hrun

/-- A constant with two heads, and struct literals in them. -/
def headsText : List Char :=
  "const A:_=if(S\x7b\x7d)\x7bfor _ in[S\x7b\x7d]\x7b\x7d\x7d;".toList

/-- Each struct literal in brackets. -/
def literalOutline : String :=
  "(RECORD_EXPR (PATH (PATH_SEGMENT (NAME_REF S))) (RECORD_EXPR_FIELD_LIST \x7b \x7d))"

/-- The tree of the text in brackets. -/
def headsOutline : String :=
  "(SOURCE_FILE (CONST const (NAME A) : (INFER_TYPE _) = (IF_EXPR if (PAREN_EXPR ( " ++
  literalOutline ++ " )) (BLOCK_EXPR \x7b (EXPR_STMT (FOR_EXPR for (WILDCARD_PAT _) in " ++
  "(ARRAY_EXPR [ " ++ literalOutline ++ " ]) (BLOCK_EXPR \x7b \x7d))) \x7d)) ;))"

/-- The text has this tree, as a file and alone, and no struct literal stands bare in it. -/
theorem parsing_keeps_heads_all : ∃ s p q, TokenStream.ofText headsText = .ok s ∧
    ofText headsText unlimited = .ok p ∧ (ofStream unlimited s {}).1 = .ok p ∧
    ofEntry .const headsText unlimited = .ok q ∧ p.tree.outline = headsOutline ∧
    p.KeepsHeads ∧ q.KeepsHeads := by
  obtain ⟨p, hp, houtline⟩ :=
    ofText_of_treeWithin headsText 300 (fun tree => tree.outline = headsOutline) (by decide +kernel)
  obtain ⟨q, hq, -⟩ :=
    ofEntry_of_treeWithin .const headsText 300 (fun _ => true) (by decide +kernel)
  obtain ⟨s, hs, hrun⟩ := exists_stream hp
  obtain ⟨htext, hstream, hentry⟩ := parsing_keeps_heads headsText unlimited
  exact ⟨s, p, q, hs, hp, hrun, hq, of_decide_eq_true houtline, hstream s {} p hs hrun,
    hentry .const q hq⟩

end Parse
end Packrat
