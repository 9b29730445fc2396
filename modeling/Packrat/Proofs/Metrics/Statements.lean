/-
# Statements stand in blocks

The metric looks for statements among all nodes of a file, and takes those that are a statement by
their kind, or an item right below a block.  A block lists what is right below it and can stand
before its tail.  In the trees of the language both find the same
(`Metrics.statement_counts_agree`):

* a node other than the root stands right below one node only (`Located.tail_descendants_perm`), so
  what is found among all nodes is found once below some node;
* declarations and expression statements stand right below blocks only
  (`Language.obeys_statements`), so nothing is found below a node that is no block;
* below a block, the kinds that the metric takes are those that the block lists, and neither takes a
  macro call.
-/

import Packrat.Metrics
import Packrat.Proofs.Parse.Children
import Packrat.Proofs.Typed.View
import Packrat.Typed.Expression

namespace Packrat

open Peg

/-! ## Where the grammar puts statements -/

namespace Language

/-- All kinds but those of plain statements. -/
def unlikeStatements : KindSet :=
  .ofList (Kind.all.filter fun k => !(k == .letStmt || k == .exprStmt))

/-- Everything may stand right below a block, and everything but plain statements below other
nodes. -/
def kindsUnder (kind : Kind) : KindSet :=
  if kind = .blockExpr then .ofList Kind.all else unlikeStatements

/-- A check that plain statements stand in blocks only, also for a file as a whole. -/
def keepsStatements (g : Grammar) : Bool :=
  let table := g.topsTable 24
  g.obeys table kindsUnder &&
    ((Term.rule fileRule.name).tops (g.topsOf table)).isSubset (kindsUnder .sourceFile)

/-- **The rules put plain statements right into blocks only.** -/
theorem obeys_statements {g : Grammar} (hg : grammar = .ok g) :
    ∃ table, g.Obeys table kindsUnder ∧ g.Keeps table kindsUnder (.rule fileRule.name) ∧
      (Term.rule fileRule.name).tops (g.topsOf table) ⊆ kindsUnder .sourceFile := by
  have hall : keepsStatements g = true := of_coded (by decide +kernel) hg
  obtain ⟨hobeys, hfile⟩ := Bool.and_eq_true_iff.mp hall
  refine ⟨_, Grammar.obeys_of_all hobeys, fun t ht => ?_, KindSet.subset_of_isSubset hfile⟩
  obtain rfl := List.mem_singleton.mp ht
  rfl

/-- Nothing but a block has a plain statement right below it. -/
theorem eq_blockExpr_of_mem {k kind : Kind} (h : k ∈ kindsUnder kind)
    (hk : (k == .letStmt || k == .exprStmt) = true) : kind = .blockExpr := by
  by_contra hkind
  rw [kindsUnder, if_neg hkind, unlikeStatements, KindSet.mem_ofList, List.mem_filter, hk] at h
  cases h.2

end Language

/-! ## Below one node -/

namespace Located

variable {n c : Located}

/-- Below a block the metric takes what the block lists. -/
theorem isStatement_of_parent (h : c.parent = some .blockExpr) :
    c.isStatement = Category.acceptsStmt c.kind := by
  rw [isStatement, isPlainStatement, h]
  generalize c.kind = kind
  cases kind <;> rfl

/-- Below a node that may not have plain statements there are none at all. -/
theorem isStatement_of_other (h : c.parent = some n.kind) (hn : n.kind ≠ .blockExpr)
    (hc : c.isPlainStatement = false) : c.isStatement = false := by
  have hparent : (c.parent == some Kind.blockExpr) = false := by simp [h, hn]
  rw [isStatement, hc, hparent, Bool.and_false, Bool.or_false]

/-- The statements right below some nodes are those that the blocks among them list. -/
theorem length_statements {ds : List Located}
    (hplain : ∀ d ∈ ds, ∀ c ∈ d.nodes, c.isPlainStatement = true → d.kind = .blockExpr) :
    (ds.flatMap fun d => d.nodes.filter (·.isStatement)).length =
      ((ds.filterMap as? : List BlockExpr).map fun b : BlockExpr => b.statements.length).sum := by
  induction ds with
  | nil => rfl
  | cons d ds ih =>
    obtain ⟨hd, hds⟩ := List.forall_mem_cons.mp hplain
    rw [List.flatMap_cons, List.length_append, ih hds, List.filterMap_cons, as?]
    by_cases hblock : only .blockExpr d.kind = true
    · have hkind : d.kind = .blockExpr := by simpa [only] using hblock
      have hsame : d.nodes.filter (·.isStatement) =
          d.nodes.filter fun c => Category.acceptsStmt c.kind :=
        List.filter_congr fun c hc => isStatement_of_parent (hkind ▸ parent_of_mem_nodes hc)
      rw [dif_pos hblock, List.map_cons, List.sum_cons, hsame, ← length_views]
      rfl
    · have hkind : d.kind ≠ .blockExpr := by simpa [only] using hblock
      have hnone : d.nodes.filter (·.isStatement) = [] := by
        refine List.filter_eq_nil_iff.mpr fun c hc => ?_
        have hc' : c.isPlainStatement = false := by
          by_contra hstmt
          exact hkind (hd c hc (by simpa using hstmt))
        simp [isStatement_of_other (parent_of_mem_nodes hc) hkind hc']
      rw [dif_neg hblock, hnone, List.length_nil, Nat.zero_add]

end Located

/-! ## In a file -/

namespace Parse

variable {text : List Char} {s : TokenStream} {p : Parse}

/-- The statements of a file are those of its blocks. -/
structure CountsStatements (p : Parse) : Prop where
  /-- There are as many as the blocks list. -/
  counted : (Metrics.ofParse p).statements =
    ((p.root.viewsWithin : List BlockExpr).map fun b : BlockExpr => b.statements.length).sum
  /-- Declarations and expression statements stand right below blocks. -/
  placed : ∀ n ∈ p.root.descendants, n.kind = .letStmt ∨ n.kind = .exprStmt →
    ∃ b ∈ p.root.descendants, b.kind = .blockExpr ∧ n ∈ b.nodes

/-- A tree with plain statements in blocks only has the statements of its blocks. -/
theorem countsStatements_of_obeys (hkind : p.root.kind = .sourceFile)
    (h : p.tree.Obeys Language.kindsUnder) : p.CountsStatements := by
  have hperm := Located.tail_descendants_perm p.root
  have hplain : ∀ d ∈ p.root.descendants, ∀ c ∈ d.nodes, c.isPlainStatement = true →
      d.kind = .blockExpr := fun d hd c hc =>
    Language.eq_blockExpr_of_mem (Located.kind_mem_of_obeys h hd hc)
  -- the root is no statement
  have hnot : p.root.isStatement = false := by
    rw [Located.isStatement, Located.isPlainStatement, hkind]
    rfl
  constructor
  · show (p.root.descendants.filter (·.isStatement)).length = _
    have htail : p.root.descendants.filter (·.isStatement) =
        p.root.descendants.tail.filter (·.isStatement) := by
      cases hnode : p.root.tree.isNode with
      | false => rw [Located.descendants_of_token hnode]; rfl
      | true =>
        rw [Located.descendants_of_node hnode, List.filter_cons_of_neg (by simp [hnot])]
        rfl
    rw [htail, (hperm.filter _).length_eq, List.filter_flatMap]
    exact Located.length_statements hplain
  · intro n hn hstmt
    have hin : n ∈ p.root.descendants.tail := by
      refine (Located.eq_or_mem_tail hn).resolve_left ?_
      rintro rfl
      rw [hkind] at hstmt
      simp at hstmt
    obtain ⟨b, hb, hnb⟩ := List.mem_flatMap.mp (hperm.mem_iff.mp hin)
    exact ⟨b, hb, hplain b hb n hnb (by simpa [Located.isPlainStatement] using hstmt), hnb⟩

/-- A tree of a whole file over the tokens of a text has the statements of its blocks. -/
theorem ofStream_countsStatements (hs : TokenStream.ofText text = .ok s) {options : ParseOptions}
    {memo : Memo} (h : (ofStream options s memo).1 = .ok p) : p.CountsStatements := by
  have hplain := fun g => Language.isPlain_rule (g := g) Language.fileRule.name
  exact countsStatements_of_obeys (kind_root hs hplain h)
    (run_obeys hs hplain (fun g => Language.obeys_statements) h)

end Parse

namespace Metrics

open Parse

/-- **The metric and the blocks count the same statements**, in every tree of a file, whatever the
options and whatever a table of memos held before. -/
theorem statement_counts_agree (text : List Char) (options : ParseOptions) :
    (∀ p, ofText text options = .ok p → p.CountsStatements) ∧
      ∀ s memo p, TokenStream.ofText text = .ok s → (Parse.ofStream options s memo).1 = .ok p →
        p.CountsStatements := by
  refine ⟨fun p h => ?_, fun s memo p hs h => ofStream_countsStatements hs h⟩
  obtain ⟨s, hs, hrun⟩ := exists_stream h
  exact ofStream_countsStatements hs hrun

/-- An item, a declaration, expressions and macro calls, in a block, in one inside of it and
outside. -/
def nestedText : List Char := "k!{}fn f(){use a;;m!();{let b;n!()}o!()}".toList

/-- The blocks have four statements.  One that is empty counts for nothing, and so do a macro call
that is an item and one at the end of a block. -/
theorem statement_counts_agree_nested : ∃ s p, TokenStream.ofText nestedText = .ok s ∧
    ofText nestedText unlimited = .ok p ∧ (Parse.ofStream unlimited s {}).1 = .ok p ∧
    (ofParse p).statements = 4 ∧ p.CountsStatements := by
  obtain ⟨p, hp, hcount⟩ := ofText_of_treeWithin nestedText 200
    (fun tree => ((Located.mk tree 0 none []).descendants.filter (·.isStatement)).length = 4)
    (by decide +kernel)
  obtain ⟨s, hs, hrun⟩ := exists_stream hp
  obtain ⟨-, hstream⟩ := statement_counts_agree nestedText unlimited
  exact ⟨s, p, hs, hp, hrun, of_decide_eq_true hcount, hstream s {} p hs hrun⟩

end Metrics
end Packrat
