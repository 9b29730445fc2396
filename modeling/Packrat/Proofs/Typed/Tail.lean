/-
# Where blocks end

The value of a block is its tail: an expression behind the statements, or the expression of a last
statement that has no semicolon.  Either is what stands right before the closing brace, and if there
is no tail, the brace comes behind the opening one, behind a semicolon, or behind an item or an
attribute (`BlockExpr.IsTailed`).

What is the last statement can be told from the nodes alone, but semicolons also stand between the
statements, each an empty statement.  So a last statement without a semicolon might still have one
behind it.  It never has: statements take theirs where there is one (`Closes`).
-/

import Packrat.Proofs.Parse.Computed
import Packrat.Proofs.Peg.Greedy
import Packrat.Proofs.Typed.Block
import Packrat.Proofs.Typed.Part

namespace Packrat

open Peg

/-- Statements take their semicolons. -/
theorem Language.closes_grammar {g : Grammar} (hg : Language.grammar = .ok g) :
    g.closes .exprStmt .semicolon = true := by
  have hall : Language.coded.any (fun g => g.closes .exprStmt .semicolon) = true := by
    decide +kernel
  exact Language.of_coded hall hg

/-! ## Closers in trees -/

namespace Tree

/-- A tree as it looks from above, trivia apart. -/
def profile (t : Tree) : Profile := ⟨t.child, (shown t.children).getLast?.map child⟩

variable {tokens : Array Token} {n : Match} {ns : List Match} {t : Tree}

/-- The tree of a match looks as the match does. -/
theorem Of.profile_eq (h : Of tokens n t) (hshown : AreShown tokens n.leaves) :
    t.profile = n.profile := by
  have hlast : (shown t.children).getLast?.map child = n.children.getLast?.map Match.child := by
    cases n with
    | token index kind part =>
      cases h
      rfl
    | node kind children =>
      rw [← List.getLast?_map, map_child_eq (h.isOver hshown).shown, List.getLast?_map]
      rfl
  rw [profile, Match.profile, h.child_eq, hlast]

theorem IsOver.map_profile_eq (h : t.IsOver tokens ns) :
    (Tree.shown t.children).map profile = ns.map Match.profile := by
  obtain ⟨hleaves, hshown, -⟩ := h
  generalize Tree.shown t.children = ts at hshown ⊢
  induction hshown with
  | nil => rfl
  | cons hof _ ih =>
    rw [Match.leavesAll] at hleaves
    rw [List.map_cons, List.map_cons,
      hof.profile_eq fun l hl => hleaves l (List.mem_append_left _ hl),
      ih fun l hl => hleaves l (List.mem_append_right _ hl)]

end Tree

namespace Located

variable {n c d t : Located}

/-- A node as it looks from above, trivia apart. -/
def profile (n : Located) : Profile := ⟨n.child, n.shown.getLast?.map child⟩

theorem profile_eq (n : Located) : n.profile = n.tree.profile := by
  rw [profile, Tree.profile, ← List.getLast?_map, map_child_shown, List.getLast?_map]
  rfl

theorem map_profile_shown (n : Located) :
    n.shown.map profile = (Tree.shown n.tree.children).map Tree.profile := by
  rw [← map_tree_shown, List.map_map]
  exact List.map_congr_left fun c _ => c.profile_eq

/-! ## The last token -/

/-- No significant token stands between two that come one behind the other. -/
theorem between_of_isInfix {last close : Located} (h : [last, close] <:+: n.significantTokens) :
    last.stop ≤ close.start ∧
      ∀ t ∈ n.significantTokens, t.stop ≤ last.stop ∨ close.start ≤ t.start := by
  have hpair : n.significantTokens.Pairwise fun a b => a.stop ≤ b.start :=
    (run_of_leaves n).pairwise.sublist List.filter_sublist
  obtain ⟨front, behind, hsplit⟩ := h
  rw [← hsplit, List.append_assoc] at hpair ⊢
  obtain ⟨-, hrest, hfront⟩ := List.pairwise_append.mp hpair
  obtain ⟨hlast, hclose⟩ := List.pairwise_cons.mp hrest
  refine ⟨hlast close (by simp), fun t ht => ?_⟩
  rcases List.mem_append.mp ht with ht | ht
  · exact .inl ((hfront t ht last (by simp)).trans last.start_le_stop)
  · simp only [List.cons_append, List.nil_append, List.mem_cons] at ht
    rcases ht with rfl | rfl | ht
    · exact .inl (Nat.le_refl _)
    · exact .inr (Nat.le_refl _)
    · exact .inr (close.start_le_stop.trans (List.rel_of_pairwise_cons hclose ht))

/-- The last token of a node is the last one of the last that shows right below it. -/
theorem getLast?_significantTokens {front : List Located} {last : Located}
    (hnode : n.tree.isNode = true) (hshown : n.shown = front ++ [c])
    (hlast : c.significantTokens.getLast? = some last) :
    n.significantTokens.getLast? = some last := by
  rw [significantTokens_eq_flatMap_shown hnode, hshown, List.flatMap_append, List.flatMap_singleton]
  exact List.mem_getLast?_append_of_mem_getLast? hlast

end Located

/-! ## Statements -/

namespace Located

variable {n x : Located} {labels marks : List Located} {opening : Located}
  {attrs body tail : List Located} {closing : Located}

/-- The expression of a statement without a semicolon. -/
def bareExpr? (n : Located) : Option Expr := do
  let s : ExprStmt ← n.as?
  if s.hasSemicolon then none else s.expr?

/-- How a statement ends. -/
inductive EndsStmt (n : Located) : Prop where
  | bare (front : List Located) (e : Expr) : n.shown = front ++ [e.node] →
    e.node.tree.isNode = true → n.bareExpr? = some e → n.profile.IsOpen .exprStmt .semicolon →
    EndsStmt n
  | closed (front : List Located) (t : Located) : n.shown = front ++ [t] →
    t.tree.isNode = false → t.kind = .semicolon → n.bareExpr? = none → EndsStmt n
  | item : Category.acceptsItem n.kind = true → n.bareExpr? = none → EndsStmt n

theorem bareExpr?_eq_none (h : n.kind ≠ .exprStmt) : n.bareExpr? = none := by
  have hno : (n.as? : Option ExprStmt) = none := dif_neg (by simpa [only] using h)
  rw [bareExpr?, hno]
  rfl

/-- What shows last in a block before the closing brace. -/
theorem IsBlock.exists_last (h : n.IsBlock labels marks opening attrs body tail closing) :
    ∃ front x, n.shown = front ++ [x, closing] ∧ (tail = [x] ∨ tail = [] ∧
      (body.getLast? = some x ∨ body = [] ∧ (x ∈ attrs ∨ x = opening))) := by
  have hshown := h.shown
  rcases h.tail with rfl | ⟨e, rfl, -⟩
  · rcases List.eq_nil_or_concat body with rfl | ⟨body, x, rfl⟩
    · rcases List.eq_nil_or_concat attrs with rfl | ⟨attrs, x, rfl⟩
      · exact ⟨labels ++ marks, opening, by simpa using hshown, .inr ⟨rfl, .inr ⟨rfl, .inr rfl⟩⟩⟩
      · refine ⟨labels ++ (marks ++ opening :: attrs), x, by simpa using hshown, ?_⟩
        exact .inr ⟨rfl, .inr ⟨rfl, .inl (by simp)⟩⟩
    · refine ⟨labels ++ (marks ++ opening :: (attrs ++ body)), x, by simpa using hshown, ?_⟩
      exact .inr ⟨rfl, .inl (by simp)⟩
  · exact ⟨labels ++ (marks ++ opening :: (attrs ++ body)), e, by simpa using hshown, .inl rfl⟩

/-- Behind the last statement of a block that ends in a semicolon comes a semicolon. -/
theorem IsBlock.exists_behind (h : n.IsBlock labels marks opening attrs body tail closing)
    {s : Located} (hlast : body.getLast? = some x) (hx : x.tree.isNode = false)
    (hs : (body.filter (·.tree.isNode)).getLast? = some s) :
    ∃ front t behind, n.shown = front ++ s :: t :: behind ∧ t.child = .leaf .semicolon := by
  obtain ⟨init, hinit⟩ := List.getLast?_eq_some_iff.mp hs
  obtain ⟨front, rest, rfl, -, hrest⟩ := List.filter_eq_append_iff.mp hinit
  obtain ⟨mid, behind, rfl, -, hnode, hbehind⟩ := List.filter_eq_cons_iff.mp hrest
  have hleaf : ∀ t ∈ behind, t.child = .leaf .semicolon := by
    intro t ht
    have htoken := List.filter_eq_nil_iff.mp hbehind t ht
    rcases h.body t (by simp [ht]) with ⟨hnode, -⟩ | ⟨htoken, hkind⟩
    · exact absurd hnode htoken
    · rw [child_of_token htoken, hkind]
  cases behind with
  | nil =>
    -- the statement itself is last
    obtain rfl : s = x := by simpa using hlast
    rw [hx] at hnode
    cases hnode
  | cons t behind =>
    refine ⟨labels ++ (marks ++ opening :: (attrs ++ (front ++ mid))), t,
      behind ++ (tail ++ [closing]), ?_, hleaf t List.mem_cons_self⟩
    rw [h.shown]
    simp

end Located

namespace BlockExpr

variable {b : BlockExpr}

/-- The tail is an expression, or that of the last statement. -/
theorem tail?_eq (b : BlockExpr) :
    b.tail? = b.expr?.or (b.statements.getLast?.bind fun s => s.node.bareExpr?) := by
  rw [tail?]
  cases b.expr? with
  | some e => rfl
  | none => rfl

end BlockExpr

namespace Located

variable {labels marks : List Located} {opening : Located} {attrs body : List Located}
  {closing : Located}

/-- Without an expression at its end, a block has the tail that its last statement has. -/
theorem IsBlock.tail?_eq {b : BlockExpr}
    (hblock : b.node.IsBlock labels marks opening attrs body [] closing) :
    b.tail? = (body.filter (·.tree.isNode)).getLast?.bind bareExpr? := by
  have hexpr : b.expr? = none := by
    have hnil := hblock.map_node_exprs
    rw [List.map_eq_nil_iff] at hnil
    show b.node.view? = none
    rw [view?_eq_head?, hnil]
    rfl
  rw [BlockExpr.tail?_eq, hexpr, Option.none_or, ← hblock.map_node_stmts, List.getLast?_map,
    Option.bind_map]
  rfl

end Located

namespace Parse

variable {p : Parse} {n c : Located}

open Located Packrat.Language

/-- A statement is an expression behind attributes, with a semicolon or without. -/
theorem IsLaidOut.ends_exprStmt (h : p.IsLaidOut) (hn : n ∈ p.root.descendants.tail)
    (hkind : n.kind = .exprStmt) : n.EndsStmt := by
  have hword := (h.laid n hn _ (by rw [hkind]; rfl)).word
  simp only [inOrder, anExpr, aToken, aNode, ofCategory, Row.node, Row.mem_words_join,
    Row.mem_words_opt, Row.mem_words_star_one, Row.mem_words_one, mem_words_leaf, child_mem_nodes,
    KindSet.mem_ofList, KindSet.mem_singleton, List.mem_filter, Category.accepts] at hword
  obtain ⟨attrs, _, hshown, hattrs, _, semicolons, rfl, ⟨e, rfl, he, -, hekind⟩, hsemicolons⟩ :=
    hword
  have hstmt : (n.as? : Option ExprStmt) = some ⟨n, by simp [only, hkind]⟩ := as?_eq_some _
  have hattrTokens : attrs.filter (!·.tree.isNode) = [] :=
    List.filter_eq_nil_iff.mpr fun a ha => by simp [(hattrs a ha).1]
  rcases hsemicolons with ⟨t, rfl, ht, htkind⟩ | rfl
  · have hhas : n.has .semicolon = true := by
      rw [has_eq_any_shownTokens rfl, shownTokens_eq_filter_shown, hshown]
      simp [ht, htkind]
    refine .closed (attrs ++ [e]) t (by simp [hshown]) ht htkind ?_
    rw [bareExpr?, hstmt]
    exact if_pos hhas
  · have hhas : n.has .semicolon = false := by
      rw [has_eq_any_shownTokens rfl, shownTokens_eq_filter_shown, hshown]
      simp [hattrTokens, he]
    have hexprs : (n.views : List Expr).map (·.node) = [e] := by
      have hnone : attrs.filter (fun c => Category.acceptsExpr c.kind) = [] :=
        List.filter_eq_nil_iff.mpr fun a ha => by simp [(hattrs a ha).2, Category.acceptsExpr]
      rw [map_node_views, nodes_eq_filter_shown, hshown, List.filter_append, List.filter_append,
        List.filter_eq_self.mpr fun a ha => (hattrs a ha).1, hnone]
      simp [he, hekind]
    obtain ⟨v, hv, rfl⟩ := exists_view? hexprs
    refine .bare attrs v (by simp [hshown]) he ?_ ⟨?_, ?_⟩
    · rw [bareExpr?, hstmt]
      exact (if_neg (Bool.eq_false_iff.mp hhas)).trans hv
    · rw [profile, child_of_node (isNode_of_mem_descendants (List.mem_of_mem_tail hn)), hkind]
    · rw [profile, hshown]
      simp [child_of_node he]

/-- A declaration of variables ends in a semicolon. -/
theorem IsLaidOut.ends_letStmt (h : p.IsLaidOut) (hn : n ∈ p.root.descendants.tail)
    (hkind : n.kind = .letStmt) : n.EndsStmt := by
  have hword := (h.laid n hn _ (by rw [hkind]; rfl)).word
  simp only [inOrder, aToken, Row.mem_words_join, mem_words_leaf, KindSet.mem_singleton] at hword
  obtain ⟨r₁, _, hshown, -, r₂, _, rfl, -, r₃, _, rfl, -, r₄, _, rfl, -, r₅, _, rfl, -,
    t, rfl, ht, htkind⟩ := hword
  exact .closed (r₁ ++ (r₂ ++ (r₃ ++ (r₄ ++ r₅)))) t (by simp [hshown]) ht htkind
    (bareExpr?_eq_none (by simp [hkind]))

theorem IsLaidOut.endsStmt (h : p.IsLaidOut) (hn : n ∈ p.root.descendants.tail)
    (hstmt : Category.acceptsStmt n.kind = true) : n.EndsStmt := by
  by_cases hexpr : n.kind = .exprStmt
  · exact h.ends_exprStmt hn hexpr
  by_cases hlet : n.kind = .letStmt
  · exact h.ends_letStmt hn hlet
  · refine .item ?_ (bareExpr?_eq_none hexpr)
    unfold Category.acceptsStmt at hstmt
    split at hstmt
    all_goals first | contradiction | exact hstmt

/-! ## The last token of a block -/

/-- In no node does a statement without a semicolon have one right behind it. -/
def TakesSemicolons (p : Parse) : Prop :=
  ∀ d ∈ p.root.descendants.tail, AreClosed .exprStmt .semicolon (d.shown.map profile)

end Parse

namespace BlockExpr

/-- What stands before the closing brace of a block that has no tail: the opening brace, a
semicolon, or the last token of an item or of an inner attribute. -/
def MayEndIn (b : BlockExpr) (last : Located) : Prop :=
  last ∈ b.node.tokens ∧ last.kind = .lBrace ∨ last.kind = .semicolon ∨
    ∃ c ∈ b.node.nodes, (Category.acceptsItem c.kind = true ∨ c.kind = .innerAttr) ∧
      c.significantTokens.getLast? = some last

/-- The last token before the closing brace is that of the tail, or there is no tail, and the block
may end in the token. -/
def EndsBefore (root : Located) (b : BlockExpr) (last : Located) : Prop :=
  (∃ e, b.tail? = some e ∧ e.node ∈ root.descendants.tail ∧
    e.node.significantTokens.getLast? = some last) ∨ b.tail? = none ∧ b.MayEndIn last

/-- The tail of a block is what stands before its closing brace. -/
structure IsTailed (root : Located) (b : BlockExpr) : Prop where
  exprs : (b.node.views : List Expr).length ≤ 1
  /-- The last significant token of the block is the brace, and right before it comes that of the
  tail.  No token lies between the end of the tail and the brace. -/
  closed : ∃ last close, close ∈ b.node.tokens ∧ close.kind = .rBrace ∧
    b.node.significantTokens.getLast? = some close ∧ [last, close] <:+: root.significantTokens ∧
    (∀ e, b.tail? = some e → e.node.significantTokens.getLast? = some last ∧
      e.node.stop ≤ close.start ∧
      ∀ t ∈ root.significantTokens, t.stop ≤ e.node.stop ∨ close.start ≤ t.start) ∧
    (b.tail? = none → b.MayEndIn last)

end BlockExpr

namespace Parse

variable {p : Parse} {n x last : Located} {b : BlockExpr} {labels marks : List Located}
  {opening : Located} {attrs body tail : List Located} {closing : Located}

open Located Packrat.Language

/-- What shows below a node stops where its last significant token does. -/
theorem IsFramed.exists_last (h : p.IsFramed) (hn : n ∈ p.root.descendants) (hx : x ∈ n.shown) :
    ∃ last, x.significantTokens.getLast? = some last ∧ x.stop = last.stop := by
  cases hnode : x.tree.isNode with
  | false => exact ⟨x, by rw [significantTokens_of_mem_shown hx hnode]; rfl, rfl⟩
  | true =>
    obtain ⟨_, last, -, -, -, hlast, hrange⟩ :=
      h.inner x (mem_tail_of_mem_nodes hn (mem_nodes_of_mem_shown hx hnode))
    exact ⟨last, hlast, congrArg Range.stop hrange⟩

/-- The last statement of a block, if nothing comes behind it. -/
theorem IsLaidOut.tail_of_stmt (h : p.IsLaidOut) (hframed : p.IsFramed)
    (hb : b.node ∈ p.root.descendants)
    (hblock : b.node.IsBlock labels marks opening attrs body [] closing)
    (hx : x ∈ b.node.nodes) (hstmt : Category.acceptsStmt x.kind = true)
    (hlast : body.getLast? = some x) (htoken : x.significantTokens.getLast? = some last) :
    b.EndsBefore p.root last := by
  have hxtail := mem_tail_of_mem_nodes hb hx
  have hnode := isNode_of_mem_descendants (List.mem_of_mem_tail hxtail)
  have hvalue : b.tail? = x.bareExpr? := by
    obtain ⟨init, rfl⟩ := List.getLast?_eq_some_iff.mp hlast
    rw [hblock.tail?_eq, List.filter_append, List.filter_singleton, hnode, cond_true,
      List.getLast?_concat]
    rfl
  rw [BlockExpr.EndsBefore, hvalue]
  cases h.endsStmt hxtail hstmt with
  | bare front e hshown he hbare _ =>
    have hxnode := List.mem_of_mem_tail hxtail
    have hmem : e.node ∈ x.shown := by simp [hshown]
    obtain ⟨found, hfound, -⟩ := hframed.exists_last hxnode hmem
    have hsame := getLast?_significantTokens hnode hshown hfound
    rw [htoken] at hsame
    cases hsame
    exact .inl ⟨e, hbare, mem_tail_of_mem_nodes hxnode (mem_nodes_of_mem_shown hmem he), hfound⟩
  | closed front t hshown ht hkind hnone =>
    have hmem : t ∈ x.shown := by simp [hshown]
    have htsame := getLast?_significantTokens hnode hshown
      (by rw [significantTokens_of_mem_shown hmem ht]; rfl)
    rw [htoken] at htsame
    cases htsame
    exact .inr ⟨hnone, .inr (.inl hkind)⟩
  | item hitem hnone => exact .inr ⟨hnone, .inr (.inr ⟨x, hx, .inl hitem, htoken⟩)⟩

/-- A block that ends in an empty statement has no tail. -/
theorem IsLaidOut.tail_of_semicolon (h : p.IsLaidOut) (htakes : p.TakesSemicolons)
    (hb : b.node ∈ p.root.descendants.tail)
    (hblock : b.node.IsBlock labels marks opening attrs body [] closing)
    (hlast : body.getLast? = some x) (hx : x.tree.isNode = false) : b.tail? = none := by
  rw [hblock.tail?_eq]
  cases hstmt : (body.filter (·.tree.isNode)).getLast? with
  | none => rfl
  | some s =>
    rw [Option.bind_some]
    have hmem : s ∈ body.filter (·.tree.isNode) := List.mem_of_getLast? hstmt
    obtain ⟨hbody, hnode⟩ := List.mem_filter.mp hmem
    have hshown : s ∈ b.node.shown := by simp [hblock.shown, hbody]
    have htail := mem_tail_of_mem_nodes (List.mem_of_mem_tail hb)
      (mem_nodes_of_mem_shown hshown hnode)
    have hkind : Category.acceptsStmt s.kind = true := by
      rcases hblock.body s hbody with ⟨-, hkind⟩ | ⟨htoken, -⟩
      · exact hkind
      · rw [hnode] at htoken
        cases htoken
    cases h.endsStmt htail hkind with
    | closed _ _ _ _ _ hnone => exact hnone
    | item _ hnone => exact hnone
    | bare _ _ _ _ _ hopen =>
      -- a semicolon comes right behind the statement, and it would have been taken
      obtain ⟨front, t, behind, hsplit, ht⟩ := hblock.exists_behind hlast hx hstmt
      have hclosed := htakes _ hb
      rw [hsplit, List.map_append, List.map_cons, List.map_cons] at hclosed
      have hpair := (List.isChain_append.mp hclosed).2.1
      exact absurd ht ((List.isChain_cons_cons.mp hpair).1 hopen)

/-- What stands last in a block tells whether it has a tail. -/
theorem IsLaidOut.tail_or (h : p.IsLaidOut) (hframed : p.IsFramed) (htakes : p.TakesSemicolons)
    (hb : b.node ∈ p.root.descendants.tail)
    (hblock : b.node.IsBlock labels marks opening attrs body tail closing)
    (hx : x ∈ b.node.shown) (hlast : tail = [x] ∨ tail = [] ∧
      (body.getLast? = some x ∨ body = [] ∧ (x ∈ attrs ∨ x = opening)))
    (htoken : x.significantTokens.getLast? = some last) :
    b.EndsBefore p.root last := by
  have hdesc := List.mem_of_mem_tail hb
  -- a token at the end is the last one
  have hleaf : x.tree.isNode = false → last = x := by
    intro hnode
    rw [significantTokens_of_mem_shown hx hnode] at htoken
    exact (Option.some.inj htoken).symm
  rcases hlast with rfl | ⟨rfl, hbody | ⟨rfl, hattr | rfl⟩⟩
  · obtain ⟨e, he, rfl⟩ := exists_view? hblock.map_node_exprs
    have hexpr : b.expr? = some e := he
    obtain ⟨e', he', hnode, -⟩ := hblock.tail.resolve_left (by simp)
    cases he'
    refine .inl ⟨e, by rw [BlockExpr.tail?_eq, hexpr]; rfl, ?_, htoken⟩
    exact mem_tail_of_mem_nodes hdesc (mem_nodes_of_mem_shown hx hnode)
  · rcases hblock.body x (List.mem_of_getLast? hbody) with ⟨hnode, hstmt⟩ | ⟨hnode, hkind⟩
    · exact h.tail_of_stmt hframed hdesc hblock (mem_nodes_of_mem_shown hx hnode) hstmt hbody htoken
    · refine .inr ⟨h.tail_of_semicolon htakes hb hblock hbody hnode, .inr (.inl ?_)⟩
      rw [hleaf hnode, hkind]
  · obtain ⟨hnode, hkind⟩ := hblock.attrs x hattr
    refine .inr ⟨hblock.tail?_eq, .inr (.inr ⟨x, mem_nodes_of_mem_shown hx hnode, ?_, htoken⟩)⟩
    exact .inr hkind
  · obtain ⟨hnode, hkind⟩ := hblock.opening
    refine .inr ⟨hblock.tail?_eq, .inl ?_⟩
    rw [hleaf hnode]
    exact ⟨mem_tokens_of_mem_shown hx hnode, hkind⟩

/-- **The tail of a block is what stands before its closing brace.** -/
theorem IsLaidOut.isTailed (h : p.IsLaidOut) (hframed : p.IsFramed) (htakes : p.TakesSemicolons)
    (hb : b ∈ p.root.viewsWithin) : b.IsTailed p.root := by
  have htail := h.mem_tail_view hb (by simp)
  have hdesc := List.mem_of_mem_tail htail
  obtain ⟨labels, marks, opening, attrs, body, tail, close, hblock⟩ := h.exists_block hb
  obtain ⟨front, x, hshown, hlast⟩ := hblock.exists_last
  have hx : x ∈ b.node.shown := by simp [hshown]
  have hclose : close ∈ b.node.shown := by simp [hshown]
  obtain ⟨last, htoken, -⟩ := hframed.exists_last hdesc hx
  obtain ⟨init, hinit⟩ := List.getLast?_eq_some_iff.mp htoken
  -- the brace is the last token of the block, and the last one of `x` stands before it
  have htokens : b.node.significantTokens =
      (front.flatMap significantTokens ++ init) ++ [last, close] := by
    rw [significantTokens_eq_flatMap_shown (isNode_of_mem_descendants hdesc), hshown]
    simp [hinit, significantTokens_of_mem_shown hclose hblock.closing.1]
  have hends : [last, close] <:+: p.root.significantTokens :=
    (htokens ▸ (List.suffix_append ..).isInfix).trans ((leaves_isInfix hdesc).filter _)
  refine ⟨hblock.length_exprs_le, last, close, mem_tokens_of_mem_shown hclose hblock.closing.1,
    hblock.closing.2, by simp [htokens], hends, ?_⟩
  have hor := h.tail_or hframed htakes htail hblock hx hlast htoken
  constructor
  · intro e he
    obtain ⟨e', he', hmem, hetoken⟩ := hor.resolve_right fun hnone => by simp [he] at hnone
    obtain rfl : e = e' := by simpa [he] using he'
    obtain ⟨_, last', -, -, -, hlast', hrange⟩ := hframed.inner e.node hmem
    rw [hetoken] at hlast'
    cases hlast'
    rw [show e.node.stop = last.stop from congrArg Range.stop hrange]
    exact ⟨hetoken, between_of_isInfix hends⟩
  · intro hnone
    refine (hor.resolve_left ?_).2
    rintro ⟨e, he, -⟩
    simp [hnone] at he

/-! ## In the trees of runs -/

variable {text : List Char} {s : TokenStream}

/-- Statements take their semicolons, whatever rule the root is matched by. -/
theorem run_takesSemicolons (hs : TokenStream.ofText text = .ok s) {root : Term}
    (hroot : ∀ g, ∀ t ∈ root.parts, Language.isPlain g t = true)
    (hcloses : root.Every fun t => t.closes .exprStmt .semicolon = true)
    {options : ParseOptions} {memo : Memo} (h : (run root options s memo).1 = .ok p) :
    p.TakesSemicolons := by
  obtain ⟨m, ns, stop, hg, hparses, -, hover⟩ := exists_over hs hroot h
  have hinside := (hparses.closes (closes_grammar hg) hcloses).inside
  intro d hd
  obtain ⟨ms, ⟨n, hn, hwithin⟩, hd⟩ := hover d hd
  rw [map_profile_shown, hd.map_profile_eq]
  exact hinside n hn _ ms hwithin

/-- **A block's tail is what stands before its closing brace**, in every tree of a file or of
another construct, whatever the options and whatever a table of memos held before. -/
theorem blocks_end_in_tails (text : List Char) (options : ParseOptions) :
    (∀ p, ofText text options = .ok p →
        ∀ b : BlockExpr, b ∈ p.root.viewsWithin → b.IsTailed p.root) ∧
      (∀ s memo p, TokenStream.ofText text = .ok s → (ofStream options s memo).1 = .ok p →
        ∀ b : BlockExpr, b ∈ p.root.viewsWithin → b.IsTailed p.root) ∧
      ∀ entry p, ofEntry entry text options = .ok p →
        ∀ b : BlockExpr, b ∈ p.root.viewsWithin → b.IsTailed p.root := by
  obtain ⟨-, hlaid, hentry⟩ := parsing_laidOut text options
  have hstream : ∀ s memo p, TokenStream.ofText text = .ok s →
      (ofStream options s memo).1 = .ok p →
      ∀ b : BlockExpr, b ∈ p.root.viewsWithin → b.IsTailed p.root := by
    intro s memo p hs h b hb
    have hframed := run_framed hs (fun g => isPlain_rule fileRule.name)
      (fun g => fills_rule g _) (fun m hg ns stop => kindAt_of_file hg) h
    have htakes := run_takesSemicolons hs (fun g => isPlain_rule fileRule.name)
      (Term.every_rule rfl) h
    exact (hlaid s memo p hs h).isTailed hframed htakes hb
  refine ⟨fun p h => ?_, hstream, fun entry p h b hb => ?_⟩
  · obtain ⟨s, hs, hrun⟩ := exists_stream h
    exact hstream s {} p hs hrun
  · obtain ⟨s, hs, hrun⟩ := exists_stream h
    have hframed := run_framed hs (fun g => isPlain_rule_ended entry.ruleName)
      (fun g => fills_rule_ended g _) (fun m hg ns stop => kindAt_of_endsClosed rfl) hrun
    have htakes := run_takesSemicolons hs (fun g => isPlain_rule_ended entry.ruleName)
      (Term.every_rule_ended rfl rfl rfl) hrun
    exact (hentry entry p h).isTailed hframed htakes hb

/-- A block with a semicolon behind an inner block and a loop as its tail. -/
def tailsText : List Char := "fn f()\x7b\x7b\x7d;loop\x7b1\x7d\x7d".toList

/-- A block with a macro call. -/
def calledText : List Char := "\x7ba!\x7b\x7d\x7d".toList

/-- The kinds of the tails of the blocks in a tree. -/
def tailKinds (n : Located) : List (Option Kind) :=
  n.viewsWithin.map fun b : BlockExpr => b.tail?.map (·.kind)

/-- A tree with tails has a block with the first of them. -/
theorem exists_of_tailKinds {k : Option Kind} {ks : List (Option Kind)}
    (h : tailKinds n = k :: ks) :
    ∃ b : BlockExpr, b ∈ n.viewsWithin ∧ b.tail?.map (·.kind) = k := by
  obtain ⟨b, bs, hviews, hkind, -⟩ := List.map_eq_cons_iff.mp h
  exact ⟨b, hviews ▸ List.mem_cons_self, hkind⟩

/-- The last statement is the tail of the outer block, the first inner block has none, and that of
the loop has an expression.  Alone, a block that ends in a macro call in braces has this as its
tail. -/
theorem blocks_end_in_tails_loop : ∃ s p q, TokenStream.ofText tailsText = .ok s ∧
    ofText tailsText unlimited = .ok p ∧ (ofStream unlimited s {}).1 = .ok p ∧
    ofEntry .block calledText unlimited = .ok q ∧
    tailKinds p.root = [some .loopExpr, none, some .literal] ∧
    tailKinds q.root = [some .macroCall] ∧
    (∃ b : BlockExpr, b ∈ p.root.viewsWithin ∧ b.tail?.map (·.kind) = some .loopExpr ∧
      b.IsTailed p.root) ∧
    ∃ b : BlockExpr, b ∈ q.root.viewsWithin ∧ b.tail?.map (·.kind) = some .macroCall ∧
      b.IsTailed q.root := by
  obtain ⟨p, hp, htails⟩ := ofText_of_treeWithin tailsText 300
    (fun tree => tailKinds (Located.mk tree 0 none []) = [some .loopExpr, none, some .literal])
    (by decide +kernel)
  obtain ⟨q, hq, hcall⟩ := ofEntry_of_treeWithin .block calledText 200
    (fun tree => tailKinds (Located.mk tree 0 none []) = [some .macroCall]) (by decide +kernel)
  obtain ⟨s, hs, hrun⟩ := exists_stream hp
  obtain ⟨-, hstream, -⟩ := blocks_end_in_tails tailsText unlimited
  obtain ⟨-, -, hentry⟩ := blocks_end_in_tails calledText unlimited
  have hp' : tailKinds p.root = [some .loopExpr, none, some .literal] := of_decide_eq_true htails
  have hq' : tailKinds q.root = [some .macroCall] := of_decide_eq_true hcall
  obtain ⟨b, hb, hloop⟩ := exists_of_tailKinds hp'
  obtain ⟨c, hc, hmacro⟩ := exists_of_tailKinds hq'
  exact ⟨s, p, q, hs, hp, hrun, hq, hp', hq', ⟨b, hb, hloop, hstream s {} p hs hrun b hb⟩,
    c, hc, hmacro, hentry .block q hq c hc⟩

end Parse
end Packrat
