/-
# How operators group in trees

In every tree that parsing gives, operators group as the ladder says (`Tree.IsGrouped`):

| node | operands |
| --- | --- |
| binary operator | of tighter levels; the left one also of its level, if that groups to the left; the right one of an assignment also an assignment |
| range | no range and no assignment; ranges themselves stand in assignments only |
| cast | no binary operator and no range |
| prefix operator, reference | nor a cast |
| call, field, index, `await`, `?` | nor a prefix operator or reference |

Building a tree from matches keeps the nodes and puts trivia in between, so what stands under a
node without its trivia is what stood under the node of the match (`Tree.Of`), and what is
known of the rungs of matches is so of trees.
-/

import Packrat.Proofs.Language.Grouped
import Packrat.Proofs.Parse.Lossless

namespace Packrat

open Peg Packrat.Language

namespace Tree

/-! ## Grouping in trees -/

/-- Some trees under a node without the trivia. -/
def shown (children : List Tree) : List Tree :=
  children.filter fun t => t.isNode || t.kind.isSignificant

/-- The level of the operator of a binary expression. -/
def level? : Tree → Option Nat
  | .node .binExpr children =>
    match shown children with
    | [_, .token op _, _] => Language.level? op
    | _ => none
  | _ => none

/-- The kinds of ranges. -/
def rangeKinds : List Kind := [.rangeExpr, .rangeFromExpr, .rangeToExpr, .rangeFullExpr]

/-- The kinds of postfix forms. -/
def postfixKinds : List Kind :=
  [.callExpr, .methodCallExpr, .fieldExpr, .indexExpr, .awaitExpr, .tryExpr]

/-- The tree is a node, and of none of some kinds. -/
def IsOperand (t : Tree) (kinds : List Kind) : Prop := t.isNode = true ∧ t.kind ∉ kinds

/-- What stands under a node of a kind, without trivia, is grouped. -/
structure Grouping (kind : Kind) (parts : List Tree) : Prop where
  /-- Operands of a binary operator bind more tightly than it does, or as tightly if its level
  groups to that side; ranges are operands of assignments only. -/
  binary : kind = .binExpr → ∃ l op text r L level, parts = [l, .token op text, r] ∧
    l.isNode = true ∧ r.isNode = true ∧
    Language.level? op = some L ∧ levels[L]? = some level ∧
    (∀ M, l.level? = some M → L < M ∨ M = L ∧ level.assoc = .left) ∧
    (∀ M, r.level? = some M → L < M ∨ M = L ∧ level.operators = assignments) ∧
    (l.kind ∈ rangeKinds ∨ r.kind ∈ rangeKinds → level.operators = assignments)
  /-- The ends of a range are neither ranges nor assignments. -/
  range : kind ∈ [.rangeExpr, .rangeFromExpr, .rangeToExpr] → (∃ x ∈ parts, x.isNode = true) ∧
    ∀ x ∈ parts, x.isNode = true → x.IsOperand rangeKinds ∧ x.level? ≠ some 0
  /-- What is cast is neither a binary expression nor a range. -/
  cast : kind = .castExpr → ∃ x rest, parts = x :: rest ∧ x.IsOperand (.binExpr :: rangeKinds)
  /-- What stands behind a prefix operator is not a cast either. -/
  unary : kind = .prefixExpr ∨ kind = .refExpr →
    ∃ rest x, parts = rest ++ [x] ∧ x.IsOperand (.binExpr :: .castExpr :: rangeKinds)
  /-- What stands before a postfix form has no prefix operator either. -/
  postfixed : kind ∈ postfixKinds → ∃ x rest, parts = x :: rest ∧
    x.IsOperand (.binExpr :: .castExpr :: .prefixExpr :: .refExpr :: rangeKinds)

/-- A token, or a node over operands that are grouped. -/
def IsGrouped : Tree → Prop
  | .token .. => True
  | .node kind children => Grouping kind (shown children)

/-- The tree stands in another one, or is the other one. -/
inductive Within (t : Tree) : Tree → Prop where
  | self : Within t t
  | inner {kind children c} : c ∈ children → Within t c → Within t (.node kind children)

/-! ## Rungs of trees -/

/-- The rung of a tree. -/
def rung : Tree → Nat
  | .token .. => 14
  | .node kind children =>
    match kind, shown children with
    | .binExpr, [_, .token op _, _] => ((Language.level? op).map levelRung).getD 0
    | kind, _ => kindRung kind

variable {t : Tree} {kind : Kind}

theorem rung_of_level? {level : Nat} (h : t.level? = some level) : t.rung = levelRung level := by
  unfold level? at h
  split at h
  · next children =>
    split at h
    · next l op text r hshown =>
      simp only [rung, hshown, h]
      rfl
    · cases h
  · cases h

/-- The highest rung of nodes of a kind. -/
def topRung (kind : Kind) : Nat := if kind = .binExpr then levels.length else kindRung kind

theorem kindRung_le_topRung (kind : Kind) : kindRung kind ≤ topRung kind := by
  unfold topRung
  split
  · next hkind =>
    subst hkind
    exact Nat.zero_le _
  · exact Nat.le_refl _

theorem rung_le_topRung (hnode : t.isNode = true) : t.rung ≤ topRung t.kind := by
  cases t with
  | token => cases hnode
  | node kind children =>
    simp only [rung]
    split
    · next l op text r _ =>
      cases hlevel : Language.level? op with
      | none => exact Nat.zero_le _
      | some level =>
        have hlt : level < levels.length := (List.findIdx?_eq_some_iff_getElem.mp hlevel).1
        simp only [topRung, Tree.kind, levelRung, Option.map_some, Option.getD_some, if_true]
        split <;> omega
    · exact kindRung_le_topRung _

/-! ## Trees of matches -/

variable {tokens : Array Token} {ns : List Match} {n : Match}

/-- The tree of a match, somewhere in the text. -/
inductive Of (tokens : Array Token) : Match → Tree → Prop where
  | token {index kind part text} : Of tokens (.token index kind part) (.token kind text)
  | node {kind children done} :
    Of tokens (.node kind children) (.node kind (ofMatches tokens done children).1)

/-- A match becomes its tree behind some trivia. -/
theorem ofMatch_eq (hinside : ∀ l ∈ n.leaves, IsInside tokens l) (done : Nat) :
    ∃ (vs : List Trivia) (t : Tree),
      (ofMatch tokens done n).1 = vs.map ofTrivia ++ [t] ∧ Of tokens n t := by
  cases n with
  | token index kind part =>
    have hlt : index < tokens.size := hinside (.token index kind part) (by simp [Match.leaves])
    rw [ofMatch, Array.getElem?_eq_getElem hlt]
    exact ⟨_, _, rfl, .token⟩
  | node kind children =>
    rw [ofMatch]
    cases Match.firstPosOf? children with
    | none => exact ⟨[], _, rfl, .node⟩
    | some first => exact ⟨_, _, rfl, .node⟩

/-- A tree of some matches is a trivia or the tree of one of them. -/
theorem of_of_mem {t : Tree} : ∀ {done : Nat}, (∀ l ∈ Match.leavesAll ns, IsInside tokens l) →
    t ∈ (ofMatches tokens done ns).1 → (∃ v, t = ofTrivia v) ∨ ∃ n ∈ ns, Of tokens n t := by
  induction ns with
  | nil => intro done _ ht; cases ht
  | cons n ns ih =>
    intro done hinside ht
    have hn : ∀ l ∈ n.leaves, IsInside tokens l := fun l hl =>
      hinside l (List.mem_append_left _ hl)
    obtain ⟨vs, t', hfirst, hof⟩ := ofMatch_eq hn done
    rw [ofMatches] at ht
    rcases List.mem_append.mp ht with ht | ht
    · rw [hfirst] at ht
      rcases List.mem_append.mp ht with ht | ht
      · obtain ⟨v, -, rfl⟩ := List.mem_map.mp ht
        exact .inl ⟨v, rfl⟩
      · obtain rfl := List.mem_singleton.mp ht
        exact .inr ⟨n, by simp, hof⟩
    · rcases ih (fun l hl => hinside l (List.mem_append_right _ hl)) ht with h | ⟨n', hn', hof⟩
      · exact .inl h
      · exact .inr ⟨n', by simp [hn'], hof⟩

theorem mem_leavesAll {c : Match} {children : List Match} (hc : c ∈ children) :
    ∀ l ∈ c.leaves, l ∈ Match.leavesAll children := by
  obtain ⟨before, behind, rfl⟩ := List.append_of_mem hc
  intro l hl
  rw [Match.leavesAll_append, Match.leavesAll]
  exact List.mem_append_right _ (List.mem_append_left _ hl)

theorem eq_of_within_ofTrivia {t : Tree} {v : Trivia} (h : t.Within (ofTrivia v)) :
    t = ofTrivia v := by
  cases h
  rfl

/-- **What stands in the tree of a match is a trivia or the tree of a match in it.** -/
theorem exists_of_within {t u : Tree} (h : u.Within t) (hof : Of tokens n t)
    (hinside : ∀ l ∈ n.leaves, IsInside tokens l) : (∃ v, u = ofTrivia v) ∨
      ∃ m, m.Within n ∧ Of tokens m u ∧ ∀ l ∈ m.leaves, IsInside tokens l := by
  induction h generalizing n with
  | self => exact .inr ⟨n, .self, hof, hinside⟩
  | inner hc hu ih =>
    cases hof
    rcases of_of_mem hinside hc with ⟨v, rfl⟩ | ⟨c, hmem, hof⟩
    · exact .inl ⟨v, eq_of_within_ofTrivia hu⟩
    · rcases ih hof fun l hl => hinside l (mem_leavesAll hmem l hl) with hv | ⟨m, hm, hof', hin⟩
      · exact .inl hv
      · exact .inr ⟨m, .inner hmem hm, hof', hin⟩

theorem Of.isShown {t : Tree} (h : Of tokens n t) :
    (t.isNode || t.kind.isSignificant) = n.isShown := by
  cases h with
  | token => rfl
  | node => rfl

theorem shown_append (ts us : List Tree) : shown (ts ++ us) = shown ts ++ shown us :=
  List.filter_append ..

theorem shown_ofTrivia (vs : List Trivia) : shown (vs.map ofTrivia) = [] := by
  refine List.filter_eq_nil_iff.mpr fun t ht => ?_
  obtain ⟨v, -, rfl⟩ := List.mem_map.mp ht
  cases hkind : v.kind <;> simp [ofTrivia, isNode, Tree.kind, TriviaKind.kind, hkind] <;> decide

/-- Without trivia, the trees of matches that show are the trees of these matches. -/
theorem forall₂_shown : ∀ {done : Nat}, (∀ l ∈ Match.leavesAll ns, IsInside tokens l) →
    (∀ n ∈ ns, n.isShown = true) →
    List.Forall₂ (Of tokens) ns (shown (ofMatches tokens done ns).1) := by
  induction ns with
  | nil => exact fun _ _ => .nil
  | cons n ns ih =>
    intro done hinside hshown
    have hn : ∀ l ∈ n.leaves, IsInside tokens l := fun l hl =>
      hinside l (List.mem_append_left _ hl)
    obtain ⟨vs, t, hfirst, hof⟩ := ofMatch_eq hn done
    have hkept : shown [t] = [t] := by
      rw [shown, List.filter_cons_of_pos (by rw [hof.isShown]; exact hshown n (by simp))]
      rfl
    rw [ofMatches, shown_append, hfirst, shown_append, shown_ofTrivia, hkept]
    exact .cons hof (ih (fun l hl => hinside l (List.mem_append_right _ hl))
      fun n' hn' => hshown n' (by simp [hn']))

/-! ## From forms to groups -/

/-- The tree is of the form. -/
def Stands : Form → Tree → Prop
  | .leaf op, .token kind _ => kind = op
  | .tight n, .node kind children => n ≤ (Tree.node kind children).rung
  | _, _ => False

theorem Stands.leaf {op : Kind} (h : Stands (.leaf op) t) : ∃ text, t = .token op text := by
  cases t with
  | token kind text => cases h; exact ⟨text, rfl⟩
  | node => cases h

theorem Stands.tight {k : Nat} (h : Stands (.tight k) t) : t.isNode = true ∧ k ≤ t.rung := by
  cases t with
  | token => cases h
  | node => exact ⟨rfl, h⟩

/-- A node from a rung on is an operand of none of the kinds that are below it. -/
theorem Stands.isOperand {k : Nat} {kinds : List Kind} (h : Stands (.tight k) t) {n : Nat}
    (hle : n ≤ k) (hkinds : ∀ kind ∈ kinds, topRung kind < n) : t.IsOperand kinds := by
  obtain ⟨hnode, hrung⟩ := h.tight
  refine ⟨hnode, fun hmem => ?_⟩
  have htop := rung_le_topRung hnode
  have hlt := hkinds t.kind hmem
  omega

/-- A node from a rung on has no operator of a looser level. -/
theorem Stands.level_le {k level : Nat} (h : Stands (.tight k) t) (hlevel : t.level? = some level) :
    k ≤ levelRung level := by
  obtain ⟨-, hrung⟩ := h.tight
  rwa [rung_of_level? hlevel] at hrung

/-- The kinds of ranges are below the rung of the operands of ranges. -/
theorem Stands.not_range {k : Nat} (h : Stands (.tight k) t) (hle : 2 ≤ k) :
    t.kind ∉ rangeKinds :=
  (h.isOperand hle (by decide)).2

variable {word : List Form} {parts : List Tree}

/-- Each of the second is related to one of the first. -/
theorem exists_of_forall₂ {α β : Type} {r : α → β → Prop} {xs : List α} {ys : List β}
    (h : List.Forall₂ r xs ys) {y : β} (hy : y ∈ ys) : ∃ x ∈ xs, r x y := by
  induction h with
  | nil => cases hy
  | cons hrel _ ih =>
    rcases List.mem_cons.mp hy with rfl | hy
    · exact ⟨_, List.mem_cons_self, hrel⟩
    · obtain ⟨x, hx, hrel⟩ := ih hy
      exact ⟨x, List.mem_cons_of_mem _ hx, hrel⟩

/-- What stands on both sides of a binary operator. -/
theorem binary_of_fits (hfits : wordFits .binExpr word = true)
    (h : List.Forall₂ Stands word parts) :
    ∃ l op text r L level, parts = [l, .token op text, r] ∧ l.isNode = true ∧ r.isNode = true ∧
      Language.level? op = some L ∧ levels[L]? = some level ∧
      (∀ M, l.level? = some M → L < M ∨ M = L ∧ level.assoc = .left) ∧
      (∀ M, r.level? = some M → L < M ∨ M = L ∧ level.operators = assignments) ∧
      (l.kind ∈ rangeKinds ∨ r.kind ∈ rangeKinds → level.operators = assignments) := by
  obtain ⟨a, op, b, L, rfl, hop, hleft, hright⟩ := wordFits_binExpr hfits
  rcases h with _ | ⟨hl, _ | ⟨hmid, _ | ⟨hr, _ | -⟩⟩⟩
  next l _ r =>
  obtain ⟨text, rfl⟩ := hmid.leaf
  have hlt : L < levels.length := (List.findIdx?_eq_some_iff_getElem.mp hop).1
  have hlevel : levels[L]? = some levels[L] := List.getElem?_eq_getElem hlt
  have hloosest (h0 : L = 0) : levels[L].operators = assignments := by
    subst h0
    rfl
  simp only [leftRung, hlevel, Option.any_some, rightRung] at hleft hright
  refine ⟨l, op, text, r, L, levels[L], rfl, hl.tight.1, hr.tight.1, hop, hlevel, ?_, ?_, ?_⟩
  · intro M hM
    have hle := hl.level_le hM
    by_cases hassoc : levels[L].assoc = .left
    · simp only [hassoc, decide_true, if_true] at hleft
      have hLM : L ≤ M := levelRung_le_iff.mp (by omega)
      rcases Nat.lt_or_eq_of_le hLM with hlt | heq
      · exact .inl hlt
      · exact .inr ⟨heq.symm, hassoc⟩
    · simp only [hassoc, decide_false, Bool.false_eq_true, if_false] at hleft
      exact .inl (levelRung_lt_iff.mp (by omega))
  · intro M hM
    have hle := hr.level_le hM
    by_cases h0 : L = 0
    · rcases Nat.eq_zero_or_pos M with hM0 | hpos
      · exact .inr ⟨hM0.trans h0.symm, hloosest h0⟩
      · exact .inl (by omega)
    · rw [if_neg h0] at hright
      exact .inl (levelRung_lt_iff.mp (by omega))
  · intro hrange
    by_contra hassign
    have hL : 2 ≤ levelRung L := by
      have h0 : L ≠ 0 := fun h0 => hassign (hloosest h0)
      simp only [levelRung, if_neg h0]
      omega
    have h0 : L ≠ 0 := fun h0 => hassign (hloosest h0)
    rw [if_neg h0] at hright
    have ha : 2 ≤ a := by
      split at hleft <;> omega
    rcases hrange with hrange | hrange
    · exact hl.not_range ha hrange
    · exact hr.not_range (by omega) hrange

/-- **What fits under a node is grouped.** -/
theorem grouping_of_fits
    (h : hasOperands kind = true →
      ∃ word, wordFits kind word = true ∧ List.Forall₂ Stands word parts) :
    Grouping kind parts where
  binary := by
    rintro rfl
    obtain ⟨word, hfits, hstands⟩ := h rfl
    exact binary_of_fits hfits hstands
  range := by
    intro hkind
    have hoperands : ∀ kind ∈ [Kind.rangeExpr, .rangeFromExpr, .rangeToExpr],
        hasOperands kind = true := by decide
    obtain ⟨word, hfits, hstands⟩ := h (hoperands kind hkind)
    obtain ⟨⟨l, hl⟩, hall⟩ := wordFits_range hkind hfits
    constructor
    · obtain ⟨x, hx, hstand⟩ := exists_of_forall₂ (r := flip Stands) hstands.flip hl
      exact ⟨x, hx, hstand.tight.1⟩
    · intro x hx hnode
      obtain ⟨form, hform, hstand⟩ := exists_of_forall₂ hstands hx
      cases form with
      | leaf op =>
        obtain ⟨text, rfl⟩ := hstand.leaf
        cases hnode
      | tight k =>
        have hle := hall k hform
        refine ⟨⟨hnode, hstand.not_range hle⟩, fun hlevel => ?_⟩
        have hrung : k ≤ levelRung 0 := hstand.level_le hlevel
        simp [levelRung] at hrung
        omega
  cast := by
    rintro rfl
    obtain ⟨word, hfits, hstands⟩ := h rfl
    obtain ⟨l, rest, rfl, hle⟩ := wordFits_castExpr hfits
    rcases hstands with _ | ⟨hl, -⟩
    exact ⟨_, _, rfl, hl.isOperand hle (by decide)⟩
  unary := by
    intro hkind
    obtain ⟨word, hfits, hstands⟩ := h (by rcases hkind with rfl | rfl <;> rfl)
    obtain ⟨rest, r, rfl, hle⟩ := wordFits_unary hkind hfits
    rw [← List.forall₂_reverse_iff, List.reverse_append] at hstands
    obtain ⟨x, others, hr, -, heq⟩ := List.forall₂_cons_left_iff.mp hstands
    refine ⟨others.reverse, x, ?_, hr.isOperand hle (by decide)⟩
    rw [← List.reverse_reverse parts, heq, List.reverse_cons]
  postfixed := by
    intro hkind
    have hpostfix : ∀ kind ∈ postfixKinds, hasOperands kind = true ∧ kindRung kind = 13 := by
      decide
    obtain ⟨hoperands, hrung⟩ := hpostfix kind hkind
    obtain ⟨word, hfits, hstands⟩ := h hoperands
    obtain ⟨l, rest, rfl, hle⟩ := wordFits_postfix hrung hfits
    rcases hstands with _ | ⟨hl, -⟩
    exact ⟨_, _, rfl, hl.isOperand hle (by decide)⟩

/-! ## From matches to trees -/

theorem rung_of_ne {children : List Tree} (h : kind ≠ .binExpr) :
    (node kind children).rung = kindRung kind := by
  simp only [rung]
  split
  · exact absurd rfl h
  · rfl

/-- Under a node with operands, without trivia, are the trees of the matches. -/
theorem forall₂_of_fits {children : List Match} {word : List Form} (done : Nat)
    (hinside : ∀ l ∈ Match.leavesAll children, IsInside tokens l)
    (hoperands : hasOperands kind = true) (hfits : wordFits kind word = true)
    (hforms : List.Forall₂ Form.Fits word children) :
    List.Forall₂ (Of tokens) children (shown (ofMatches tokens done children).1) :=
  forall₂_shown hinside (isShown_of_forms hforms (isShown_of_wordFits hoperands hfits))

/-- A tree keeps the rung of a grouped match: its operator is no trivia. -/
theorem Of.rung_eq (hof : Of tokens n t) (hn : n.IsGrouped)
    (hinside : ∀ l ∈ n.leaves, IsInside tokens l) : t.rung = n.rung := by
  cases hof with
  | token => rfl
  | @node kind children done =>
    by_cases hkind : kind = .binExpr
    · subst hkind
      rcases hn with _ | ⟨hword, -⟩
      obtain ⟨word, hfits, hforms⟩ := hword rfl
      have htrees := forall₂_of_fits done hinside rfl hfits hforms
      obtain ⟨a, op, b, level, rfl, -⟩ := wordFits_binExpr hfits
      rcases hforms with _ | ⟨-, _ | ⟨hop, _ | ⟨-, _ | -⟩⟩⟩
      next l mid r =>
      cases mid with
      | node => cases hop
      | token index op part =>
        generalize hshown : shown (ofMatches tokens done [l, .token index op part, r]).1 = parts
          at htrees
        rcases htrees with _ | ⟨-, _ | ⟨hmid, _ | ⟨-, _ | -⟩⟩⟩
        cases hmid
        simp only [rung, hshown]
        rfl
    · rw [rung_of_ne hkind, Match.rung_of_ne hkind]

/-- A tree of a grouped match is of its forms. -/
theorem Of.stands {form : Form} (hof : Of tokens n t) (hn : n.IsGrouped)
    (hinside : ∀ l ∈ n.leaves, IsInside tokens l) (hfits : form.Fits n) : Stands form t := by
  have hrung := hof.rung_eq hn hinside
  cases hof with
  | token =>
    cases form with
    | leaf => exact hfits
    | tight => cases hfits
  | node =>
    cases form with
    | leaf => cases hfits
    | tight k =>
      show k ≤ _
      rw [hrung]
      exact hfits

/-- Trees of grouped matches are of their forms. -/
theorem forall₂_stands {children : List Match} (hforms : List.Forall₂ Form.Fits word children)
    (htrees : List.Forall₂ (Of tokens) children parts)
    (hinside : ∀ l ∈ Match.leavesAll children, IsInside tokens l)
    (hchildren : ∀ c ∈ children, c.IsGrouped) : List.Forall₂ Stands word parts := by
  induction hforms generalizing parts with
  | nil =>
    cases htrees
    exact .nil
  | @cons form c word children hform _ ih =>
    rcases htrees with _ | ⟨hof, htrees⟩
    have hc := fun l hl => hinside l (mem_leavesAll List.mem_cons_self l hl)
    refine .cons (hof.stands (hchildren c (by simp)) hc hform) ?_
    exact ih htrees (fun l hl => hinside l (List.mem_append_right _ hl))
      fun c hc => hchildren c (by simp [hc])

/-- The tree of a grouped match is grouped. -/
theorem Of.isGrouped {t : Tree} (hof : Of tokens n t) (hn : n.IsGrouped)
    (hinside : ∀ l ∈ n.leaves, IsInside tokens l) : t.IsGrouped := by
  rcases hn with _ | ⟨hword, hchildren⟩
  · cases hof
    trivial
  · cases hof
    refine grouping_of_fits fun hoperands => ?_
    obtain ⟨word, hfits, hforms⟩ := hword hoperands
    exact ⟨word, hfits, forall₂_stands hforms
      (forall₂_of_fits _ hinside hoperands hfits hforms) hinside hchildren⟩

end Tree

namespace Parse

/-- All trees of the parse are grouped. -/
def IsGrouped (p : Parse) : Prop := ∀ t : Tree, t.Within p.tree → t.IsGrouped

variable {text : List Char} {s : TokenStream}

/-- The root is over trees of the matches, trivia and the end of the text. -/
theorem mem_build (root : Kind) {ns : List Match}
    (hinside : ∀ l ∈ Match.leavesAll ns, Tree.IsInside s.tokens l) :
    ∃ children, Tree.build s root ns = .node root children ∧ ∀ t ∈ children,
      (∃ kind text, t = .token kind text) ∨ ∃ n ∈ ns, Tree.Of s.tokens n t := by
  have hmatches : ∀ t ∈ (Tree.ofMatches s.tokens 0 ns).1,
      (∃ kind text, t = .token kind text) ∨ ∃ n ∈ ns, Tree.Of s.tokens n t := fun t ht => by
    rcases Tree.of_of_mem hinside ht with ⟨v, rfl⟩ | hof
    · exact .inl ⟨_, _, rfl⟩
    · exact .inr hof
  unfold Tree.build
  cases s.tokens.back? with
  | none => exact ⟨_, rfl, hmatches⟩
  | some eof =>
    refine ⟨_, rfl, fun t ht => ?_⟩
    rcases List.mem_append.mp ht with ht | ht
    · rcases List.mem_append.mp ht with ht | ht
      · exact hmatches t ht
      · obtain ⟨v, -, rfl⟩ := List.mem_map.mp ht
        exact .inl ⟨_, _, rfl⟩
    · obtain rfl := List.mem_singleton.mp ht
      exact .inl ⟨_, _, rfl⟩

/-- Under the root of a tree over the tokens of a text stand tokens and the trees of what the root
matches. -/
theorem exists_children (hs : TokenStream.ofText text = .ok s) {root : Term}
    (hroot : ∀ g, ∀ t ∈ root.parts, Language.isPlain g t = true) {options : ParseOptions}
    {memo : Memo} {p : Parse} (h : (run root options s memo).1 = .ok p) :
    ∃ (m : Machine) (ns : List Match) (stop : Pos) (children : List Tree),
      Language.grammar = .ok m.grammar ∧ Parses m {} (.term root) {} (some (ns, stop)) ∧
      p.tree = .node .sourceFile children ∧ (∀ l ∈ Match.leavesAll ns, Tree.IsInside s.tokens l) ∧
      ∀ t ∈ children, (∃ kind text, t = .token kind text) ∨ ∃ n ∈ ns, Tree.Of s.tokens n t := by
  obtain ⟨m, ns, stop, stats, hg, htokens, hparses, htiles, rfl⟩ := exists_build hs hroot h
  have hinside := htiles.isInside htokens
  obtain ⟨children, hbuild, hmem⟩ := mem_build .sourceFile hinside
  exact ⟨m, ns, stop, children, hg, hparses, hbuild, hinside, hmem⟩

/-- The root of a tree is of the kind of whole files. -/
theorem kind_root (hs : TokenStream.ofText text = .ok s) {root : Term}
    (hroot : ∀ g, ∀ t ∈ root.parts, Language.isPlain g t = true) {options : ParseOptions}
    {memo : Memo} {p : Parse} (h : (run root options s memo).1 = .ok p) :
    p.root.kind = .sourceFile := by
  obtain ⟨-, -, -, children, -, -, htree, -⟩ := exists_children hs hroot h
  rw [Parse.root, htree]
  rfl

/-- All that stands in a tree is a root, a token, or the tree of a match in what its root
matches. -/
theorem exists_matches (hs : TokenStream.ofText text = .ok s) {root : Term}
    (hroot : ∀ g, ∀ t ∈ root.parts, Language.isPlain g t = true) {options : ParseOptions}
    {memo : Memo} {p : Parse} (h : (run root options s memo).1 = .ok p) :
    ∃ (m : Machine) (ns : List Match) (stop : Pos), Language.grammar = .ok m.grammar ∧
      Parses m {} (.term root) {} (some (ns, stop)) ∧ ∀ t : Tree, t.Within p.tree →
        (∃ children, t = .node .sourceFile children) ∨ (∃ kind text, t = .token kind text) ∨
        ∃ n ∈ ns, ∃ c, c.Within n ∧ Tree.Of s.tokens c t ∧
          ∀ l ∈ c.leaves, Tree.IsInside s.tokens l := by
  obtain ⟨m, ns, stop, children, hg, hparses, htree, hinside, hmem⟩ := exists_children hs hroot h
  refine ⟨m, ns, stop, hg, hparses, fun t ht => ?_⟩
  rw [htree] at ht
  cases ht with
  | self => exact .inl ⟨children, rfl⟩
  | inner hc ht =>
    refine .inr ?_
    rcases hmem _ hc with ⟨kind, text, rfl⟩ | ⟨n, hn, hof⟩
    · cases ht
      exact .inl ⟨kind, text, rfl⟩
    · rcases Tree.exists_of_within ht hof fun l hl =>
        hinside l (Tree.mem_leavesAll hn l hl) with ⟨v, rfl⟩ | hwithin
      · exact .inl ⟨_, _, rfl⟩
      · exact .inr ⟨n, hn, hwithin⟩

/-- **A tree over the tokens of a text is grouped**, whatever rule its root is matched by. -/
theorem run_grouped (hs : TokenStream.ofText text = .ok s) {root : Term}
    (hroot : ∀ g, ∀ t ∈ root.parts, Language.isPlain g t = true)
    (hkeeps : ∀ g : Grammar, g.KeepsRungs root) {options : ParseOptions} {memo : Memo} {p : Parse}
    (h : (run root options s memo).1 = .ok p) : p.IsGrouped := by
  obtain ⟨m, ns, stop, hg, hparses, htrees⟩ := exists_matches hs hroot h
  have hgrouped := ((hparses.shows (isLadder_grammar hg) ns stop rfl).1 (hkeeps _)).grouped
  intro t ht
  rcases htrees t ht with ⟨children, rfl⟩ | ⟨kind, text, rfl⟩ | ⟨n, hn, c, hc, hof, hinside⟩
  · exact Tree.grouping_of_fits fun hoperands => by cases hoperands
  · trivial
  · exact hof.isGrouped ((hgrouped n hn).of_within hc) hinside

/-- **Operators group as the ladder says**, in every tree of a file or of another construct,
whatever the options and whatever a table of memos held before. -/
theorem parsing_grouped (text : List Char) (options : ParseOptions) :
    (∀ p, ofText text options = .ok p → p.IsGrouped) ∧
      (∀ s memo p, TokenStream.ofText text = .ok s → (ofStream options s memo).1 = .ok p →
        p.IsGrouped) ∧
      ∀ entry p, ofEntry entry text options = .ok p → p.IsGrouped := by
  have hstream : ∀ s memo p, TokenStream.ofText text = .ok s →
      (ofStream options s memo).1 = .ok p → p.IsGrouped := by
    intro s memo p hs h
    exact run_grouped hs (fun g => Language.isPlain_rule Language.fileRule.name)
      (fun g => Grammar.keepsRungs_rule Language.fileRule.name) h
  refine ⟨fun p h => ?_, hstream, fun entry p h => ?_⟩
  · obtain ⟨s, hs, hrun⟩ := exists_stream h
    exact hstream s {} p hs hrun
  · obtain ⟨s, hs, hrun⟩ := exists_stream h
    exact run_grouped hs (fun g => Language.isPlain_rule_ended entry.ruleName)
      (fun g => Grammar.keepsRungs_rule_ended entry.ruleName) hrun

/-- A constant with operators of most rungs. -/
def ladderText : List Char := "const A:_=1=-2?as _+3*4<<5&&6..7;".toList

/-- Its tree in brackets. -/
def ladderOutline : String :=
  "(SOURCE_FILE (CONST const (NAME A) : (INFER_TYPE _) = (BIN_EXPR (LITERAL 1) = " ++
  "(RANGE_EXPR (BIN_EXPR (BIN_EXPR (BIN_EXPR (CAST_EXPR (PREFIX_EXPR - " ++
  "(TRY_EXPR (LITERAL 2) ?)) as (INFER_TYPE _)) + (BIN_EXPR (LITERAL 3) * (LITERAL 4))) " ++
  "<< (LITERAL 5)) && (LITERAL 6)) .. (LITERAL 7))) ;))"

/-- It has this tree, as a file and alone, and the tree is grouped. -/
theorem parsing_grouped_ladder : ∃ s p q, TokenStream.ofText ladderText = .ok s ∧
    ofText ladderText unlimited = .ok p ∧ (ofStream unlimited s {}).1 = .ok p ∧
    ofEntry .const ladderText unlimited = .ok q ∧ p.tree.outline = ladderOutline ∧
    p.IsGrouped ∧ q.IsGrouped := by
  obtain ⟨p, hp, houtline⟩ := ofText_of_treeWithin ladderText 200
    (fun tree => tree.outline = ladderOutline) (by decide +kernel)
  obtain ⟨q, hq, -⟩ :=
    ofEntry_of_treeWithin .const ladderText 200 (fun _ => true) (by decide +kernel)
  obtain ⟨s, hs, hrun⟩ := exists_stream hp
  obtain ⟨htext, hstream, hentry⟩ := parsing_grouped ladderText unlimited
  exact ⟨s, p, q, hs, hp, hrun, hq, of_decide_eq_true houtline, hstream s {} p hs hrun,
    hentry .const q hq⟩

end Parse
end Packrat
