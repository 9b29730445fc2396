/-
# Parts that a node cannot go without

Each part is looked up in one way: by what a position accepts, by number, or behind a token.  The
row of a node tells whether the part is there (`Located.IsLaid`), so for most parts it is enough to
look at the table of rows.  Two nodes are taken apart piece by piece: a binary expression, since
the order of its parts counts, and a conditional, whose second expression has to be a block and
whose last one is there just if `else` is.
-/

import Packrat.Proofs.Parse.Computed
import Packrat.Proofs.Parse.Rows
import Packrat.Typed.Expression

namespace Packrat

open Peg

/-! ## Tokens right below a node -/

namespace Located

variable {n c t : Located} {accepts : Kind → Bool} {k : Kind} {row : Row}

/-- A significant token is looked for among the tokens that show. -/
theorem has_eq_any_shownTokens (hk : k.isSignificant = true) :
    n.has k = n.shownTokens.any (·.kind == k) := by
  rw [has, shownTokens, List.any_filter]
  refine List.any_congr rfl fun t => ?_
  by_cases ht : t.kind = k
  · simp [ht, hk]
  · simp [ht]

/-- The tokens that are no trivia are those that show. -/
theorem IsLaid.filter_tokens (h : n.IsLaid row) :
    n.tokens.filter (!·.kind.isTrivia) = n.shownTokens := by
  refine List.filter_congr fun t ht => ?_
  obtain ⟨hchild, htoken⟩ := List.mem_filter.mp ht
  rcases h.others t hchild with hshown | htrivia
  · have hsignificant : t.kind.isSignificant = true := by
      simpa [show t.tree.isNode = false by simpa using htoken] using (List.mem_filter.mp hshown).2
    rw [hsignificant]
    exact (Bool.and_eq_true_iff.mp hsignificant).1
  · simp [Kind.isSignificant, htrivia]

/-- The first token that is no trivia is the first that shows. -/
theorem IsLaid.firstToken?_eq (h : n.IsLaid row) : n.firstToken? = n.shownTokens.head? := by
  rw [firstToken?, ← List.head?_filter, h.filter_tokens]

/-- What is found in a token that shows is found, if nothing is found in trivia. -/
theorem findSome?_tokens {α : Type} {f : Kind → Option α} {x : α} (ht : n.shownTokens = [t])
    (hf : ∀ kind, kind.isSignificant = false → f kind = none) (hx : f t.kind = some x) :
    (n.tokens.findSome? fun t => f t.kind) = some x := by
  obtain ⟨front, behind, htokens, hfront, -, -⟩ := List.filter_eq_cons_iff.mp ht
  refine List.findSome?_eq_some_iff.mpr ⟨front, t, behind, htokens, hx, fun u hu => hf _ ?_⟩
  simpa using hfront u hu

end Located

/-! ## Operators -/

namespace BinaryOp

/-- Operators are significant tokens. -/
theorem ofKind?_eq_none {k : Kind} (h : k.isSignificant = false) : ofKind? k = none := by
  unfold ofKind?
  split
  all_goals first | rfl | cases h

/-- The tokens between two operands stand for operators. -/
theorem isSome_ofKind? {k : Kind} (h : k ∈ Language.operatorKinds) : (ofKind? k).isSome = true := by
  have hall : ∀ k ∈ Language.operatorKinds, (ofKind? k).isSome = true := by decide
  exact hall k h

end BinaryOp

namespace Parse

variable {p : Parse}

/-- The parts that nodes cannot go without are found. -/
structure FindsParts (p : Parse) : Prop where
  /-- Right below a binary expression are two expressions and one token, in this order: the left
  operand, the operator and the right operand. -/
  binary : ∀ e : BinExpr, e ∈ p.root.viewsWithin → ∃ l op o r,
    e.exprs = [l, r] ∧ e.node.shownTokens = [op] ∧
    l.node.stop ≤ op.start ∧ op.stop ≤ r.node.start ∧ BinaryOp.ofKind? op.kind = some o ∧
    e.lhs? = some l ∧ e.opToken? = some op ∧ e.op? = some o ∧ e.rhs? = some r
  unary : ∀ e : PrefixExpr, e ∈ p.root.viewsWithin →
    e.op?.isSome = true ∧ e.expr?.isSome = true
  reference : ∀ e : RefExpr, e ∈ p.root.viewsWithin → e.expr?.isSome = true
  cast : ∀ e : CastExpr, e ∈ p.root.viewsWithin →
    e.expr?.isSome = true ∧ e.target?.isSome = true
  index : ∀ e : IndexExpr, e ∈ p.root.viewsWithin →
    e.expr?.isSome = true ∧ e.secondExpr?.isSome = true
  call : ∀ e : CallExpr, e ∈ p.root.viewsWithin →
    e.expr?.isSome = true ∧ e.argList?.isSome = true
  methodCall : ∀ e : MethodCallExpr, e ∈ p.root.viewsWithin →
    e.expr?.isSome = true ∧ e.nameRef?.isSome = true ∧ e.argList?.isSome = true
  /-- A conditional has a second branch just if the token before it is there. -/
  conditional : ∀ e : IfExpr, e ∈ p.root.viewsWithin →
    e.expr?.isSome = true ∧ e.thenBranch?.isSome = true ∧
    e.elseBranch?.isSome = e.node.has .elseKw
  letCondition : ∀ e : LetExpr, e ∈ p.root.viewsWithin →
    e.pat?.isSome = true ∧ e.assignedExpr?.isSome = true
  endlessLoop : ∀ e : LoopExpr, e ∈ p.root.viewsWithin → e.block?.isSome = true
  whileLoop : ∀ e : WhileExpr, e ∈ p.root.viewsWithin →
    e.expr?.isSome = true ∧ e.body?.isSome = true
  forLoop : ∀ e : ForExpr, e ∈ p.root.viewsWithin →
    e.pat?.isSome = true ∧ e.iterable?.isSome = true ∧ e.body?.isSome = true
  choice : ∀ e : MatchExpr, e ∈ p.root.viewsWithin →
    e.expr?.isSome = true ∧ e.armList?.isSome = true
  arm : ∀ a : MatchArm, a ∈ p.root.viewsWithin →
    a.pat?.isSome = true ∧ a.value?.isSome = true
  declaration : ∀ s : LetStmt, s ∈ p.root.viewsWithin → s.pat?.isSome = true

open Located Packrat.Language

/-- Two operands and the token between them. -/
theorem IsLaidOut.binary (h : p.IsLaidOut) {e : BinExpr} (he : e ∈ p.root.viewsWithin) :
    ∃ l op o r, e.exprs = [l, r] ∧ e.node.shownTokens = [op] ∧
      l.node.stop ≤ op.start ∧ op.stop ≤ r.node.start ∧ BinaryOp.ofKind? op.kind = some o ∧
      e.lhs? = some l ∧ e.opToken? = some op ∧ e.op? = some o ∧ e.rhs? = some r := by
  have hlaid := h.isLaid_view he rfl
  have hword := hlaid.word
  simp only [rowUnder, Option.getD_some, inOrder, anExpr, ofCategory, Row.mem_words_join,
    mem_words_leaf, mem_words_node, KindSet.mem_ofList, List.mem_filter,
    Category.accepts] at hword
  obtain ⟨_, _, hshown, ⟨l, rfl, hl, -, hlkind⟩, _, _, rfl, ⟨op, rfl, hop, hopkind⟩,
    ⟨r, rfl, hr, -, hrkind⟩⟩ := hword
  have hpair := e.node.pairwise_shown
  simp only [hshown, List.cons_append, List.nil_append, List.pairwise_cons] at hpair
  -- all that shows are the three
  have hexprs : e.exprs = [⟨l, hlkind⟩, ⟨r, hrkind⟩] := by
    have hnodes : e.node.nodes = [l, r] := by
      rw [nodes_eq_filter_shown, hshown]
      simp [hl, hop, hr]
    rw [View.exprs, views, hnodes, filterMap_as?_cons hlkind, filterMap_as?_cons hrkind]
    rfl
  have htoken : e.node.shownTokens = [op] := by
    rw [shownTokens_eq_filter_shown, hshown]
    simp [hl, hop, hr]
  obtain ⟨o, ho⟩ := Option.isSome_iff_exists.mp (BinaryOp.isSome_ofKind? hopkind)
  refine ⟨_, op, o, _, hexprs, htoken, by simp [hpair], by simp [hpair], ho, ?_, ?_, ?_, ?_⟩
  · show e.node.view? = _
    rw [view?_eq_head?, show e.node.views = _ from hexprs]
    rfl
  · rw [BinExpr.opToken?, hlaid.firstToken?_eq, htoken]
    rfl
  · exact findSome?_tokens htoken (fun _ => BinaryOp.ofKind?_eq_none) ho
  · show e.node.views[1]? = _
    rw [show e.node.views = _ from hexprs]
    rfl

/-- The branches of a conditional. -/
theorem IsLaidOut.conditional (h : p.IsLaidOut) {e : IfExpr} (he : e ∈ p.root.viewsWithin) :
    e.thenBranch?.isSome = true ∧ e.elseBranch?.isSome = e.node.has .elseKw := by
  have hlaid := h.isLaid_view he rfl
  have hword := hlaid.word
  simp only [rowUnder, Option.getD_some, inOrder, anExpr, aToken, aNode, ofCategory,
    Row.mem_words_join, Row.mem_words_opt, mem_words_leaf, mem_words_node, KindSet.mem_ofList,
    KindSet.mem_singleton, List.mem_filter, Category.accepts] at hword
  obtain ⟨_, _, hshown, ⟨kw, rfl, hkw, hkind⟩, _, _, rfl, ⟨c, rfl, hc, -, hckind⟩, _, rest, rfl,
    ⟨b, rfl, hb, hbkind⟩, hrest⟩ := hword
  have hblock : only .blockExpr b.kind = true := by simp [only, hbkind]
  have hbexpr : Category.acceptsExpr b.kind = true := by rw [hbkind]; rfl
  constructor
  · have hsecond : e.secondExpr? = some ⟨b, hbexpr⟩ := by
      show e.node.views[1]? = _
      have hnodes : e.node.nodes = c :: b :: rest.filter (·.tree.isNode) := by
        rw [nodes_eq_filter_shown, hshown]
        simp [hkw, hc, hb]
      rw [views, hnodes, filterMap_as?_cons hckind, filterMap_as?_cons hbexpr]
      rfl
    rw [IfExpr.thenBranch?, hsecond, Option.bind_some, as?_eq_some hblock, Option.isSome_some]
  · rw [has_eq_any_shownTokens rfl, shownTokens_eq_filter_shown, hshown]
    rcases hrest with ⟨_, _, rfl, ⟨t, rfl, ht, htkind⟩, ⟨b', rfl, hb', hb'kind⟩⟩ | rfl
    · -- behind `else` is a conditional or a block
      have hpair := e.node.pairwise_shown
      simp only [hshown, List.cons_append, List.nil_append, List.pairwise_cons] at hpair
      have haccepts : ∀ k ∈ [Kind.ifExpr, .blockExpr], Category.acceptsExpr k = true := by decide
      have hafter := isSome_viewAfter?
        (mem_tokens_of_mem_shown (n := e.node) (by simp [hshown]) ht) htkind
        (mem_nodes_of_mem_shown (by simp [hshown]) hb') (haccepts _ hb'kind) (by simp [hpair])
      rw [IfExpr.elseBranch?, hafter]
      simp [hkw, hc, hb, ht, htkind]
    · have hnone : e.node.has .elseKw = false := by
        rw [has_eq_any_shownTokens rfl, shownTokens_eq_filter_shown, hshown]
        simp [hkw, hc, hb, hkind]
      rw [IfExpr.elseBranch?, viewAfter?_eq_none hnone]
      simp [hkw, hc, hb, hkind]

theorem IsLaidOut.findsParts (h : p.IsLaidOut) : p.FindsParts where
  binary _ := h.binary
  unary e he := by
    have hlaid := h.isLaid_view he rfl
    refine ⟨?_, hlaid.isSome_view? (by decide)⟩
    have hop : ∀ k ∈ [Kind.minus, .bang, .star], (UnaryOp.ofKind? k).isSome = true := by decide
    obtain ⟨t, ht, hkind⟩ : ∃ t ∈ e.node.tokens, t.kind ∈ [Kind.minus, .bang, .star] :=
      hlaid.exists_token (by decide)
    rw [PrefixExpr.op?, List.isSome_findSome?]
    exact List.any_eq_true.mpr ⟨t, ht, hop _ hkind⟩
  reference e he := (h.isLaid_view he rfl).isSome_view? (by decide)
  cast e he := by
    have hlaid := h.isLaid_view he rfl
    exact ⟨hlaid.isSome_view? (by decide), hlaid.isSome_viewAfter? (by decide)⟩
  index e he := by
    have hlaid := h.isLaid_view he rfl
    exact ⟨hlaid.isSome_view? (by decide), hlaid.isSome_secondView? (by decide)⟩
  call e he := by
    have hlaid := h.isLaid_view he rfl
    exact ⟨hlaid.isSome_view? (by decide), hlaid.isSome_view? (by decide)⟩
  methodCall e he := by
    have hlaid := h.isLaid_view he rfl
    exact ⟨hlaid.isSome_view? (by decide), hlaid.isSome_view? (by decide),
      hlaid.isSome_view? (by decide)⟩
  conditional e he :=
    ⟨(h.isLaid_view he rfl).isSome_view? (by decide), h.conditional he⟩
  letCondition e he := by
    have hlaid := h.isLaid_view he rfl
    exact ⟨hlaid.isSome_view? (by decide), hlaid.isSome_viewAfter? (by decide)⟩
  endlessLoop e he := (h.isLaid_view he rfl).isSome_view? (by decide)
  whileLoop e he := by
    have hlaid := h.isLaid_view he rfl
    exact ⟨hlaid.isSome_view? (by decide), hlaid.isSome_lastView? (by decide)⟩
  forLoop e he := by
    have hlaid := h.isLaid_view he rfl
    exact ⟨hlaid.isSome_view? (by decide), hlaid.isSome_viewAfter? (by decide),
      hlaid.isSome_lastView? (by decide)⟩
  choice e he := by
    have hlaid := h.isLaid_view he rfl
    exact ⟨hlaid.isSome_view? (by decide), hlaid.isSome_view? (by decide)⟩
  arm a ha := by
    have hlaid := h.isLaid_view ha rfl
    exact ⟨hlaid.isSome_view? (by decide), hlaid.isSome_viewAfter? (by decide)⟩
  declaration s hs := (h.isLaid_view hs rfl).isSome_view? (by decide)

/-- **The parts that nodes cannot go without are found**, in every tree of a file or of another
construct, whatever the options and whatever a table of memos held before. -/
theorem parsing_finds_parts (text : List Char) (options : ParseOptions) :
    (∀ p, ofText text options = .ok p → p.FindsParts) ∧
      (∀ s memo p, TokenStream.ofText text = .ok s → (ofStream options s memo).1 = .ok p →
        p.FindsParts) ∧
      ∀ entry p, ofEntry entry text options = .ok p → p.FindsParts := by
  obtain ⟨htext, hstream, hentry⟩ := parsing_laidOut text options
  exact ⟨fun p h => (htext p h).findsParts, fun s memo p hs h => (hstream s memo p hs h).findsParts,
    fun entry p h => (hentry entry p h).findsParts⟩

/-- A constant with nodes of many kinds. -/
def partsText : List Char :=
  ("const A:_=loop\x7bwhile a+b\x7bfor c in d.e()\x7bmatch&f[0]\x7b" ++
    "g=>if let h=-i()as j\x7blet k;\x7d\x7d\x7d\x7d\x7d;").toList

/-- The kinds of nodes that have parts they cannot go without. -/
def partKinds : List Kind :=
  [.loopExpr, .whileExpr, .binExpr, .forExpr, .methodCallExpr, .matchExpr, .refExpr, .indexExpr,
   .matchArm, .ifExpr, .letExpr, .castExpr, .prefixExpr, .callExpr, .letStmt]

/-- A sum. -/
def sumText : List Char := "a+b".toList

/-- In the constant there is one node of each of these kinds, and its parts are found.  So are those
of an expression alone. -/
theorem parsing_finds_parts_all : ∃ s p q, TokenStream.ofText partsText = .ok s ∧
    ofText partsText unlimited = .ok p ∧ (ofStream unlimited s {}).1 = .ok p ∧
    ofEntry .expression sumText unlimited = .ok q ∧
    (p.root.descendants.map (·.kind)).filter (· ∈ partKinds) = partKinds ∧
    p.FindsParts ∧ q.FindsParts := by
  obtain ⟨p, hp, hkinds⟩ := ofText_of_treeWithin partsText 400
    (fun tree => ((Located.mk tree 0 none []).descendants.map (·.kind)).filter (· ∈ partKinds) =
      partKinds) (by decide +kernel)
  obtain ⟨q, hq, -⟩ :=
    ofEntry_of_treeWithin .expression sumText 300 (fun _ => true) (by decide +kernel)
  obtain ⟨s, hs, hrun⟩ := exists_stream hp
  obtain ⟨-, hstream, -⟩ := parsing_finds_parts partsText unlimited
  obtain ⟨-, -, hentry⟩ := parsing_finds_parts sumText unlimited
  exact ⟨s, p, q, hs, hp, hrun, hq, of_decide_eq_true hkinds, hstream s {} p hs hrun,
    hentry .expression q hq⟩

end Parse
end Packrat
