/-
# Which nodes stand right under which, in trees

Building a tree keeps the nodes of a match and puts only trivia between them.  So the kinds that a
grammar allows under the nodes of its matches (`Peg.Grammar.Obeys`) are the only ones that stand
right below the nodes of a tree (`Parse.run_obeys`).  The root stands over what its term gives.
-/

import Packrat.Proofs.Parse.Grouping
import Packrat.Proofs.Peg.Children
import Packrat.Proofs.Tree.Located

namespace Packrat

open Peg

namespace Tree

/-- Right below a node stand only nodes of the kinds that are allowed there. -/
inductive Obeys (allowed : Kind → KindSet) : Tree → Prop where
  | token {kind text} : Obeys allowed (.token kind text)
  | node {kind children} : (∀ c ∈ children, c.isNode = true → c.kind ∈ allowed kind) →
    (∀ c ∈ children, Obeys allowed c) → Obeys allowed (.node kind children)

variable {allowed : Kind → KindSet} {tokens : Array Token} {n : Match} {t : Tree}

theorem Obeys.of_mem_children {c : Tree} (h : t.Obeys allowed) (hc : c ∈ t.children) :
    c.Obeys allowed := by
  cases h with
  | token => cases hc
  | node _ hchildren => exact hchildren c hc

/-- The tree of a match is of its kind, and a node if the match is one. -/
theorem Of.exists_node (h : Of tokens n t) (hnode : t.isNode = true) :
    ∃ children, n = .node t.kind children := by
  cases h with
  | token => cases hnode
  | node => exact ⟨_, rfl⟩

/-- The tree of a match has allowed kinds in it if the match has. -/
theorem Of.obeys (hof : Of tokens n t) (hn : n.Obeys allowed)
    (hinside : ∀ l ∈ n.leaves, IsInside tokens l) : t.Obeys allowed := by
  induction hn generalizing t with
  | token =>
    cases hof
    exact .token
  | @node kind children hkinds _ ih =>
    cases hof
    refine .node (fun c hc hnode => ?_) fun c hc => ?_
    all_goals rcases of_of_mem hinside hc with ⟨v, rfl⟩ | ⟨m, hm, hof⟩
    · cases hnode
    · obtain ⟨ms, rfl⟩ := hof.exists_node hnode
      exact hkinds _ ms hm
    · exact .token
    · exact ih m hm hof fun l hl => hinside l (mem_leavesAll hm l hl)

end Tree

namespace Located

variable {allowed : Kind → KindSet} {n d c : Located}

/-- **What stands right below a node of a tree is allowed there.** -/
theorem kind_mem_of_obeys (hn : n.tree.Obeys allowed) (hd : d ∈ n.descendants) (hc : c ∈ d.nodes) :
    c.kind ∈ allowed d.kind := by
  induction n using induct with
  | h n ih =>
    obtain ⟨-, rfl | ⟨c', hc', hd⟩⟩ := mem_descendants_iff.mp hd
    · obtain ⟨tree, start, parent, before⟩ := d
      obtain ⟨hchild, hnode⟩ := mem_nodes_iff.mp hc
      have hmem := tree_mem_of_mem_children hchild
      cases hn with
      | token => cases hmem
      | node hkinds _ => exact hkinds _ hmem hnode
    · exact ih c' hc' (hn.of_mem_children (tree_mem_of_mem_children hc')) hd

end Located

namespace Parse

variable {text : List Char} {s : TokenStream} {allowed : Kind → KindSet}

/-- **Only allowed nodes stand right below the nodes of a tree**, if the grammar keeps to that and
the root's term gives what is allowed under the root. -/
theorem run_obeys (hs : TokenStream.ofText text = .ok s) {root : Term}
    (hroot : ∀ g, ∀ t ∈ root.parts, Language.isPlain g t = true)
    (hobeys : ∀ g, Language.grammar = .ok g → ∃ table, g.Obeys table allowed ∧
      g.Keeps table allowed root ∧ root.tops (g.topsOf table) ⊆ allowed .sourceFile)
    {options : ParseOptions} {memo : Memo} {p : Parse}
    (h : (run root options s memo).1 = .ok p) : p.tree.Obeys allowed := by
  obtain ⟨m, ns, stop, children, hg, hparses, htree, hinside, hmem⟩ := exists_children hs hroot h
  obtain ⟨table, hgrammar, hkeeps, htops⟩ := hobeys m.grammar hg
  have hfits := ((hparses.yields ns stop rfl).fits hgrammar hkeeps).mono htops
  rw [htree]
  refine .node (fun c hc hnode => ?_) fun c hc => ?_
  all_goals rcases hmem c hc with ⟨kind, leaf, rfl⟩ | ⟨n, hn, hof⟩
  · cases hnode
  · obtain ⟨ms, rfl⟩ := hof.exists_node hnode
    exact hfits.tops _ ms hn
  · exact .token
  · exact hof.obeys (hfits.obeys n hn) fun l hl => hinside l (Tree.mem_leavesAll hn l hl)

end Parse
end Packrat
