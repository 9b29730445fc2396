/-
# Lists that drop nothing

A position accepts a closed set of kinds, which is written down apart from the rules that make the
nodes.  A kind that a rule can put into a list and that the position of the list does not know would
be lost to whoever reads the list.  None is: right below each kind of list the row has no nodes but
those that the position accepts (`Located.IsLaid.map_node_views`), inner attributes apart.

Files and blocks have their nodes in several lists.  There the positions exclude each other, and the
pieces stand in the order of the lists.
-/

import Packrat.Proofs.Parse.Computed
import Packrat.Proofs.Typed.Block
import Packrat.Typed.Import
import Packrat.Typed.Item

namespace Packrat

open Peg

/-! ## Nodes in lists -/

namespace Located

variable {n : Located} {ns : List Located} {lists : List (List Located)}

/-- Some nodes are shared out among lists: one after the other these are all of the nodes, and each
node is in exactly one of them. -/
structure SharedOut (ns : List Located) (lists : List (List Located)) : Prop where
  all : lists.flatten = ns
  once : ∀ c ∈ ns, ∃! i : Fin lists.length, c ∈ lists[i]

/-- Nodes are shared out among lists without common members. -/
theorem sharedOut_of_disjoint (hall : lists.flatten = ns) (h : lists.Pairwise List.Disjoint) :
    SharedOut ns lists := by
  refine ⟨hall, fun c hc => ?_⟩
  rw [← hall] at hc
  obtain ⟨l, hl, hc⟩ := List.mem_flatten.mp hc
  obtain ⟨i, hi, rfl⟩ := List.getElem_of_mem hl
  refine ⟨⟨i, hi⟩, hc, fun j hj => ?_⟩
  by_contra hne
  rcases Nat.lt_or_gt_of_ne (Fin.val_ne_of_ne hne) with hlt | hlt
  · exact List.pairwise_iff_getElem.mp h _ _ j.isLt hi hlt hj hc
  · exact List.pairwise_iff_getElem.mp h _ _ hi j.isLt hlt hc hj

theorem sharedOut_singleton (ns : List Located) : SharedOut ns [ns] :=
  sharedOut_of_disjoint (List.append_nil ns) (List.pairwise_singleton ..)

/-- Two positions that exclude each other have no node in common. -/
theorem disjoint_views {first second : Kind → Bool}
    (h : ∀ k, first k = true → second k = false) :
    List.Disjoint ((n.views : List (View first)).map (·.node))
      ((n.views : List (View second)).map (·.node)) := by
  rw [map_node_views, map_node_views]
  intro c hc hc'
  have hno := h _ (List.mem_filter.mp hc).2
  have hyes : second c.kind = true := (List.mem_filter.mp hc').2
  rw [hno] at hyes
  cases hyes

end Located

namespace Parse

variable {text : List Char} {s : TokenStream} {p : Parse}

open Located Packrat.Language

/-- The lists of a file have all nodes that stand right below what they are lists of. -/
structure DropsNothing (p : Parse) : Prop where
  file : ∀ f : SourceFile, f ∈ p.root.viewsWithin →
    SharedOut f.node.nodes [f.innerAttrs.map (·.node), f.items.map (·.node)]
  items : ∀ l : ItemList, l ∈ p.root.viewsWithin →
    SharedOut l.node.properNodes [l.items.map (·.node)]
  assocItems : ∀ l : AssocItemList, l ∈ p.root.viewsWithin →
    SharedOut l.node.properNodes [l.items.map (·.node)]
  args : ∀ l : ArgList, l ∈ p.root.viewsWithin → SharedOut l.node.nodes [l.exprs.map (·.node)]
  tuple : ∀ e : TupleExpr, e ∈ p.root.viewsWithin → SharedOut e.node.nodes [e.exprs.map (·.node)]
  tupleType : ∀ t : TupleType, t ∈ p.root.viewsWithin →
    SharedOut t.node.nodes [t.types.map (·.node)]
  genericParams : ∀ l : GenericParamList, l ∈ p.root.viewsWithin →
    SharedOut l.node.nodes [l.params.map (·.node)]
  genericArgs : ∀ l : GenericArgList, l ∈ p.root.viewsWithin →
    SharedOut l.node.nodes [l.args.map (·.node)]
  bounds : ∀ l : TypeBoundList, l ∈ p.root.viewsWithin →
    SharedOut l.node.nodes [l.bounds.map (·.node)]
  arms : ∀ l : MatchArmList, l ∈ p.root.viewsWithin →
    SharedOut l.node.properNodes [l.arms.map (·.node)]
  tuplePat : ∀ t : TuplePat, t ∈ p.root.viewsWithin → SharedOut t.node.nodes [t.pats.map (·.node)]
  slicePat : ∀ t : SlicePat, t ∈ p.root.viewsWithin → SharedOut t.node.nodes [t.pats.map (·.node)]
  orPat : ∀ t : OrPat, t ∈ p.root.viewsWithin → SharedOut t.node.nodes [t.pats.map (·.node)]
  useTrees : ∀ l : UseTreeList, l ∈ p.root.viewsWithin →
    SharedOut l.node.nodes [l.useTrees.map (·.node)]
  /-- Below a block stand a label, statements, and an expression that is its value. -/
  block : ∀ b : BlockExpr, b ∈ p.root.viewsWithin → SharedOut b.node.properNodes
    [b.label?.toList.map (·.node), b.statements.map (·.node), b.expr?.toList.map (·.node)]

variable {k : Kind} {accepts : Kind → Bool} {v : View (only k)}

/-- The row of a kind has no nodes but those on which a position agrees with what is kept. -/
def picks (accepts keep : Kind → Bool) (k : Kind) : Bool :=
  k != .sourceFile && (rowUnder k).isSome && ((rowUnder k).getD .any).lies
    ⟨.ofList Kind.all, .ofList (Kind.all.filter fun k => accepts k == keep k)⟩

/-- All nodes of a list are in it. -/
theorem IsLaidOut.sharedOut_nodes (h : p.IsLaidOut) (hv : v ∈ p.root.viewsWithin)
    (hk : picks accepts (fun _ => true) k = true) :
    SharedOut v.node.nodes [(v.node.views : List (View accepts)).map (·.node)] := by
  obtain ⟨hrow, hlies⟩ := Bool.and_eq_true_iff.mp hk
  rw [(h.isLaid_view hv hrow).map_node_views hlies, List.filter_eq_self.mpr fun _ _ => rfl]
  exact sharedOut_singleton _

/-- So are all but the inner attributes, where these may stand. -/
theorem IsLaidOut.sharedOut_properNodes (h : p.IsLaidOut) (hv : v ∈ p.root.viewsWithin)
    (hk : picks accepts isProper k = true) :
    SharedOut v.node.properNodes [(v.node.views : List (View accepts)).map (·.node)] := by
  obtain ⟨hrow, hlies⟩ := Bool.and_eq_true_iff.mp hk
  rw [(h.isLaid_view hv hrow).map_node_views hlies]
  exact sharedOut_singleton _

/-- The nodes of a block are its label, its statements and its tail. -/
theorem IsLaidOut.sharedOut_block (h : p.IsLaidOut) {b : BlockExpr} (hb : b ∈ p.root.viewsWithin) :
    SharedOut b.node.properNodes
      [b.label?.toList.map (·.node), b.statements.map (·.node), b.expr?.toList.map (·.node)] := by
  obtain ⟨labels, marks, opening, attrs, body, tail, closing, hblock⟩ := h.exists_block hb
  have hlabel : b.label?.toList = (b.node.views : List Label) :=
    toList_view? hblock.length_labels_le
  have hexpr : b.expr?.toList = (b.node.views : List Expr) := toList_view? hblock.length_exprs_le
  rw [hlabel, hexpr, BlockExpr.statements]
  refine sharedOut_of_disjoint ?_ ?_
  · rw [hblock.map_node_labels, hblock.map_node_stmts, hblock.map_node_exprs, hblock.properNodes_eq]
    simp
  · -- a label is neither a statement nor an expression, and a statement is no expression
    have hnot : ∀ k, only .label k = true → Category.acceptsStmt k = false ∧
        Category.acceptsExpr k = false := by
      intro k hk
      rw [eq_of_beq hk]
      exact ⟨rfl, rfl⟩
    simp only [List.pairwise_cons, List.forall_mem_cons, List.not_mem_nil, false_implies,
      implies_true, and_true, List.Pairwise.nil]
    exact ⟨⟨disjoint_views fun k hk => (hnot k hk).1, disjoint_views fun k hk => (hnot k hk).2⟩,
      disjoint_views fun _ => Category.acceptsExpr_of_acceptsStmt⟩

/-- The nodes of a file are its attributes and its items. -/
theorem sharedOut_file (hword : p.root.shown.map (·.child) ∈ fileRow.words) :
    SharedOut p.root.nodes [(p.root.views : List InnerAttr).map (·.node),
      (p.root.views : List Item).map (·.node)] := by
  have hnot : ∀ k, only .innerAttr k = true → Category.acceptsItem k = false := by
    intro k hk
    rw [eq_of_beq hk]
    rfl
  refine sharedOut_of_disjoint ?_ (by simp [disjoint_views hnot])
  simp only [fileRow, inOrder, aNode, ofCategory, Row.node, Row.mem_words_join,
    Row.mem_words_star_one, child_mem_nodes, KindSet.mem_ofList, KindSet.mem_singleton,
    List.mem_filter, Category.accepts] at hword
  obtain ⟨attrs, items, hshown, hattrs, hitems⟩ := hword
  have hnodes : p.root.nodes = attrs ++ items := by
    rw [nodes_eq_filter_shown, hshown, List.filter_append,
      List.filter_eq_self.mpr fun a ha => (hattrs a ha).1,
      List.filter_eq_self.mpr fun i hi => (hitems i hi).1]
  have hattr : ∀ a ∈ attrs,
      only .innerAttr a.kind = true ∧ Category.acceptsItem a.kind = false := by
    intro a ha
    rw [(hattrs a ha).2]
    exact ⟨rfl, rfl⟩
  have hitem : ∀ i ∈ items, only .innerAttr i.kind = false ∧ Category.acceptsItem i.kind = true :=
    fun i hi => ⟨beq_eq_false_iff_ne.mpr (Kind.ne_of_accepts (hitems i hi).2.2 rfl),
      (hitems i hi).2.2⟩
  rw [map_node_views, map_node_views, hnodes, List.filter_append, List.filter_append,
    List.filter_eq_self.mpr fun a ha => (hattr a ha).1,
    List.filter_eq_nil_iff.mpr fun i hi => by simp [(hitem i hi).1],
    List.filter_eq_nil_iff.mpr fun a ha => by simp [(hattr a ha).2],
    List.filter_eq_self.mpr fun i hi => (hitem i hi).2]
  simp

/-- The only file in a tree is its root. -/
theorem IsLaidOut.node_eq_root (h : p.IsLaidOut) {f : SourceFile} (hf : f ∈ p.root.viewsWithin) :
    f.node = p.root := by
  have hkind : f.node.kind = .sourceFile := eq_of_beq f.accepted
  refine (eq_or_mem_tail (node_mem_descendants hf)).resolve_right fun htail => ?_
  -- no word is in the row of a file below the root
  have hword := (h.laid _ htail (.leaf ∅) (by rw [hkind]; rfl)).word
  obtain ⟨t, -, -, ht⟩ := mem_words_leaf.mp hword
  exact KindSet.not_mem_empty ht

/-- The lists of a file that is laid out have all nodes. -/
theorem IsLaidOut.dropsNothing (h : p.IsLaidOut)
    (hword : p.root.shown.map (·.child) ∈ fileRow.words) : p.DropsNothing where
  file f hf := by
    rw [SourceFile.innerAttrs, SourceFile.items, h.node_eq_root hf]
    exact sharedOut_file hword
  items _ hl := h.sharedOut_properNodes hl (by decide +kernel)
  assocItems _ hl := h.sharedOut_properNodes hl (by decide +kernel)
  args _ hl := h.sharedOut_nodes hl (by decide +kernel)
  tuple _ he := h.sharedOut_nodes he (by decide +kernel)
  tupleType _ ht := h.sharedOut_nodes ht (by decide +kernel)
  genericParams _ hl := h.sharedOut_nodes hl (by decide +kernel)
  genericArgs _ hl := h.sharedOut_nodes hl (by decide +kernel)
  bounds _ hl := h.sharedOut_nodes hl (by decide +kernel)
  arms _ hl := h.sharedOut_properNodes hl (by decide +kernel)
  tuplePat _ ht := h.sharedOut_nodes ht (by decide +kernel)
  slicePat _ ht := h.sharedOut_nodes ht (by decide +kernel)
  orPat _ ht := h.sharedOut_nodes ht (by decide +kernel)
  useTrees _ hl := h.sharedOut_nodes hl (by decide +kernel)
  block _ := h.sharedOut_block

/-- **Lists drop nothing**, in every tree of a whole file, whatever the options and whatever a table
of memos held before. -/
theorem lists_drop_nothing (text : List Char) (options : ParseOptions) :
    (∀ p, ofText text options = .ok p → p.DropsNothing) ∧
      (∀ s memo p, TokenStream.ofText text = .ok s → (ofStream options s memo).1 = .ok p →
        p.DropsNothing) ∧
      ∀ p, ofEntry .sourceFile text options = .ok p → p.DropsNothing := by
  obtain ⟨-, hlaid, hentry⟩ := parsing_laidOut text options
  have hstream : ∀ s memo p, TokenStream.ofText text = .ok s →
      (ofStream options s memo).1 = .ok p → p.DropsNothing := by
    intro s memo p hs h
    refine (hlaid s memo p hs h).dropsNothing (run_root_mem hs
      (fun g => Language.isPlain_rule fileRule.name) (fun g hg => lays_file hg _ (by simp)) h)
  refine ⟨fun p h => ?_, hstream, fun p h => ?_⟩
  · obtain ⟨s, hs, hrun⟩ := exists_stream h
    exact hstream s {} p hs hrun
  · obtain ⟨s, hs, hrun⟩ := exists_stream h
    exact (hentry .sourceFile p h).dropsNothing (run_root_mem hs
      (fun g => Language.isPlain_rule_ended fileRule.name) (fun g hg => lays_file hg _ (by simp))
      hrun)

/-- A file with an attribute, and a block with a label, a statement and a tail. -/
def listsText : List Char := "#![a]fn f<T>()\x7b'b:\x7bg((h,),i);j\x7d\x7d".toList

/-- The kinds of the nodes right below the blocks and below the lists of arguments of a tree. -/
def listedKinds (n : Located) : List (List Kind) × List (List Kind) :=
  (n.viewsWithin.map fun b : BlockExpr => b.node.properNodes.map (·.kind),
    n.viewsWithin.map fun l : ArgList => l.node.nodes.map (·.kind))

/-- The lists of the file have all nodes, and there are some.  Neither do those of an empty file
drop any. -/
theorem lists_drop_nothing_block : ∃ s p q, TokenStream.ofText listsText = .ok s ∧
    ofText listsText unlimited = .ok p ∧ (ofStream unlimited s {}).1 = .ok p ∧
    ofEntry .sourceFile [] unlimited = .ok q ∧
    listedKinds p.root =
      ([[.exprStmt], [.label, .exprStmt, .pathExpr]], [[.tupleExpr, .pathExpr]]) ∧
    p.DropsNothing ∧ q.DropsNothing := by
  obtain ⟨p, hp, hlists⟩ := ofText_of_treeWithin listsText 300
    (fun tree => listedKinds (Located.mk tree 0 none []) =
      ([[.exprStmt], [.label, .exprStmt, .pathExpr]], [[.tupleExpr, .pathExpr]]))
    (by decide +kernel)
  obtain ⟨q, hq, -⟩ :=
    ofEntry_of_treeWithin .sourceFile [] 100 (fun _ => true) (by decide +kernel)
  obtain ⟨s, hs, hrun⟩ := exists_stream hp
  obtain ⟨-, hstream, -⟩ := lists_drop_nothing listsText unlimited
  obtain ⟨-, -, hentry⟩ := lists_drop_nothing [] unlimited
  exact ⟨s, p, q, hs, hp, hrun, hq, of_decide_eq_true hlists, hstream s {} p hs hrun, hentry q hq⟩

end Parse
end Packrat
