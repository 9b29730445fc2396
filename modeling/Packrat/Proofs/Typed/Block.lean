/-
# Blocks piece by piece

Right below a block stand, in this order and apart from trivia (`Located.IsBlock`):

| piece | |
| --- | --- |
| a label | perhaps |
| `unsafe`, `async`, `move`, `const` | some of them |
| an opening brace | |
| inner attributes | any number |
| statements and semicolons | any number |
| an expression, the tail | perhaps |
| a closing brace | |

A kind of node is a statement or an expression or neither, so each node of a block is found in one
way only.
-/

import Packrat.Proofs.Parse.Rows
import Packrat.Typed.Expression

namespace Packrat

open Peg

/-! ## Statements and expressions -/

/-- A kind that is accepted is none that is not. -/
theorem Kind.ne_of_accepts {accepts : Kind → Bool} {k l : Kind} (hk : accepts k = true)
    (hl : accepts l = false) : k ≠ l := by
  rintro rfl
  rw [hl] at hk
  cases hk

namespace Category

variable {k : Kind}

/-- No expression is a statement. -/
theorem acceptsStmt_of_acceptsExpr (h : acceptsExpr k = true) : acceptsStmt k = false := by
  unfold acceptsExpr at h
  split at h
  all_goals first | rfl | cases h

theorem acceptsExpr_of_acceptsStmt (h : acceptsStmt k = true) : acceptsExpr k = false := by
  cases hexpr : acceptsExpr k with
  | false => rfl
  | true => rw [acceptsStmt_of_acceptsExpr hexpr] at h; cases h

end Category

namespace Located

/-- Any kind but that of inner attributes. -/
def isProper (k : Kind) : Bool := k != .innerAttr

/-- The nodes right below a node, inner attributes apart. -/
def properNodes (n : Located) : List Located := n.nodes.filter fun c => isProper c.kind

/-- The node is a block, of these pieces. -/
structure IsBlock (n : Located) (labels marks : List Located) (opening : Located)
    (attrs body tail : List Located) (closing : Located) : Prop where
  shown : n.shown = labels ++ (marks ++ (opening :: (attrs ++ (body ++ (tail ++ [closing])))))
  labels : labels = [] ∨ ∃ l, labels = [l] ∧ l.tree.isNode = true ∧ l.kind = .label
  marks : ∀ t ∈ marks, t.tree.isNode = false
  opening : opening.tree.isNode = false ∧ opening.kind = .lBrace
  attrs : ∀ a ∈ attrs, a.tree.isNode = true ∧ a.kind = .innerAttr
  /-- Statements, and semicolons. -/
  body : ∀ s ∈ body, s.tree.isNode = true ∧ Category.acceptsStmt s.kind = true ∨
    s.tree.isNode = false ∧ s.kind = .semicolon
  tail : tail = [] ∨ ∃ e, tail = [e] ∧ e.tree.isNode = true ∧ Category.acceptsExpr e.kind = true
  closing : closing.tree.isNode = false ∧ closing.kind = .rBrace

namespace IsBlock

variable {n : Located} {labels marks : List Located} {opening : Located}
  {attrs body tail : List Located} {closing : Located}

/-- The nodes right below the block. -/
theorem nodes_eq (h : n.IsBlock labels marks opening attrs body tail closing) :
    n.nodes = labels ++ (attrs ++ (body.filter (·.tree.isNode) ++ tail)) := by
  have hlabels : labels.filter (·.tree.isNode) = labels := by
    rcases h.labels with rfl | ⟨l, rfl, hl, -⟩
    · rfl
    · exact List.filter_eq_self.mpr (by simpa using hl)
  have hmarks : marks.filter (·.tree.isNode) = [] :=
    List.filter_eq_nil_iff.mpr fun t ht => by simp [h.marks t ht]
  have hattrs : attrs.filter (·.tree.isNode) = attrs :=
    List.filter_eq_self.mpr fun a ha => (h.attrs a ha).1
  have htail : tail.filter (·.tree.isNode) = tail := by
    rcases h.tail with rfl | ⟨e, rfl, he, -⟩
    · rfl
    · exact List.filter_eq_self.mpr (by simpa using he)
  rw [nodes_eq_filter_shown, h.shown]
  simp [hlabels, hmarks, hattrs, htail, h.opening.1, h.closing.1]

/-- A position that accepts all or none of each piece picks these pieces. -/
theorem filter_nodes (h : n.IsBlock labels marks opening attrs body tail closing)
    {accepts : Kind → Bool} {label attr stmt expr : Bool} (hlabel : accepts .label = label)
    (hattr : accepts .innerAttr = attr)
    (hstmt : ∀ k, Category.acceptsStmt k = true → accepts k = stmt)
    (hexpr : ∀ k, Category.acceptsExpr k = true → accepts k = expr) :
    (n.nodes.filter fun c => accepts c.kind) =
      (if label then labels else []) ++ ((if attr then attrs else []) ++
        ((if stmt then body.filter (·.tree.isNode) else []) ++ if expr then tail else [])) := by
  have hpiece : ∀ (cs : List Located) (b : Bool), (∀ c ∈ cs, accepts c.kind = b) →
      (cs.filter fun c => accepts c.kind) = if b then cs else [] := by
    intro cs b hcs
    cases b with
    | false => exact List.filter_eq_nil_iff.mpr fun c hc => by simp [hcs c hc]
    | true => exact List.filter_eq_self.mpr hcs
  rw [h.nodes_eq, List.filter_append, List.filter_append, List.filter_append,
    hpiece labels label, hpiece attrs attr, hpiece _ stmt, hpiece tail expr]
  · rcases h.tail with rfl | ⟨e, rfl, -, he⟩
    · simp
    · simpa using hexpr _ he
  · intro s hs
    obtain ⟨hs, hnode⟩ := List.mem_filter.mp hs
    rcases h.body s hs with ⟨-, hs⟩ | ⟨hs, -⟩
    · exact hstmt _ hs
    · simp [hs] at hnode
  · exact fun a ha => (h.attrs a ha).2 ▸ hattr
  · rcases h.labels with rfl | ⟨l, rfl, -, hl⟩
    · simp
    · simpa [hl] using hlabel

/-- The statements are the nodes before the tail. -/
theorem map_node_stmts (h : n.IsBlock labels marks opening attrs body tail closing) :
    (n.views : List Stmt).map (·.node) = body.filter (·.tree.isNode) := by
  have hlabel : Category.acceptsStmt .label = false := rfl
  have hattr : Category.acceptsStmt .innerAttr = false := rfl
  have hpick := h.filter_nodes hlabel hattr (fun _ => id)
    fun _ => Category.acceptsStmt_of_acceptsExpr
  rw [map_node_views, hpick]
  simp

/-- The only expression right below the block is its tail. -/
theorem map_node_exprs (h : n.IsBlock labels marks opening attrs body tail closing) :
    (n.views : List Expr).map (·.node) = tail := by
  rw [map_node_views]
  exact h.filter_nodes rfl rfl (fun _ => Category.acceptsExpr_of_acceptsStmt) fun _ => id

theorem length_exprs_le (h : n.IsBlock labels marks opening attrs body tail closing) :
    (n.views : List Expr).length ≤ 1 := by
  rw [← List.length_map (·.node), h.map_node_exprs]
  rcases h.tail with rfl | ⟨e, rfl, -⟩ <;> simp

/-- The label is the only one. -/
theorem map_node_labels (h : n.IsBlock labels marks opening attrs body tail closing) :
    (n.views : List Label).map (·.node) = labels := by
  have hlabel : only .label .label = true := rfl
  have hattr : only .label .innerAttr = false := rfl
  have hpick := h.filter_nodes hlabel hattr
    (fun k hk => beq_eq_false_iff_ne.mpr (Kind.ne_of_accepts hk rfl))
    fun k hk => beq_eq_false_iff_ne.mpr (Kind.ne_of_accepts hk rfl)
  rw [map_node_views, hpick]
  simp

theorem length_labels_le (h : n.IsBlock labels marks opening attrs body tail closing) :
    (n.views : List Label).length ≤ 1 := by
  rw [← List.length_map (·.node), h.map_node_labels]
  rcases h.labels with rfl | ⟨l, rfl, -⟩ <;> simp

/-- Inner attributes apart, the nodes are the label, the statements and the tail. -/
theorem properNodes_eq (h : n.IsBlock labels marks opening attrs body tail closing) :
    n.properNodes = labels ++ (body.filter (·.tree.isNode) ++ tail) := by
  have hlabel : isProper .label = true := rfl
  have hattr : isProper .innerAttr = false := rfl
  have hpick := h.filter_nodes hlabel hattr
    (fun k hk => bne_iff_ne.mpr (Kind.ne_of_accepts hk rfl))
    fun k hk => bne_iff_ne.mpr (Kind.ne_of_accepts hk rfl)
  rw [properNodes, hpick]
  simp

end IsBlock

end Located

namespace Parse

variable {p : Parse}

open Located Packrat.Language

/-- **A block has its pieces.** -/
theorem IsLaidOut.exists_block (h : p.IsLaidOut) {b : BlockExpr} (hb : b ∈ p.root.viewsWithin) :
    ∃ labels marks opening attrs body tail closing,
      b.node.IsBlock labels marks opening attrs body tail closing := by
  have hword := (h.isLaid_view hb rfl).word
  simp only [rowUnder, Option.getD_some, inOrder, anExpr, aToken, aNode, ofCategory, statementSet,
    Row.leaf, Row.node, Row.mem_words_join, Row.mem_words_opt, Row.mem_words_star_one,
    Row.mem_words_one, child_mem_iff, KindSet.mem_ofList, KindSet.mem_singleton,
    KindSet.not_mem_empty, List.mem_filter, Category.accepts, kindsOf, and_false, or_false,
    false_or] at hword
  obtain ⟨labels, _, hshown, hlabels, marks, _, rfl, hmarks, _, _, rfl, ⟨opening, rfl, hopening⟩,
    attrs, _, rfl, hattrs, body, _, rfl, hbody, tail, _, rfl, htail, closing, rfl, hclosing⟩ :=
    hword
  exact ⟨labels, marks, opening, attrs, body, tail, closing, hshown, hlabels.symm,
    fun t ht => (hmarks t ht).1, hopening, hattrs,
    fun s hs => (hbody s hs).imp (fun hs => ⟨hs.1, hs.2.2⟩) id,
    htail.symm.imp id (Exists.imp fun e he => ⟨he.1, he.2.1, he.2.2.2⟩), hclosing⟩

end Parse
end Packrat
