/-
# Leaves at their places

What stands in a tree is the tree itself and what stands in the trees right below it
(`Located.all_eq`), so facts about places are proved from the inside out (`Located.induct`).

The leaves of a tree stand side by side from its start to its stop (`Located.run_of_leaves`), and
those of a node in it stand among them (`Located.leaves_isInfix`).  The first and the last significant
token of a node are found in two ways: down through the node, and by a walk from its first token on,
or from its last token back, which ends at a token outside the node (`Located.walk?`).  Either finds
the first or last of its significant tokens.
-/

import Mathlib.Data.List.Infix
import Packrat.Proofs.Tree.Framed
import Packrat.Tree.Located

namespace Packrat
namespace Located

/-- A tree and all below it, parents first. -/
def all (n : Located) : List Located := n.preorder.map (·.2)

theorem descendants_eq_filter (n : Located) : n.descendants = n.all.filter (·.tree.isNode) := rfl

theorem leaves_eq_filter (n : Located) : n.leaves = n.all.filter (!·.tree.isNode) := rfl

mutual

/-- What is below a tree, before others, is what is below it and the others behind. -/
theorem map_preorderBefore (rest : List (Nat × Located)) (depth start : Nat)
    (parent : Option Kind) (before : List Tree) : ∀ t : Tree,
    (preorderBefore rest depth start parent before t).map (·.2) =
      all ⟨t, start, parent, before⟩ ++ rest.map (·.2)
  | .token kind text => rfl
  | .node kind children => by
    rw [preorderBefore, List.map_cons, map_preorderBeforeAll, all, preorder, preorderBefore,
      List.map_cons, map_preorderBeforeAll, List.map_nil, List.append_nil, List.cons_append]

theorem map_preorderBeforeAll (rest : List (Nat × Located)) (depth start : Nat) (parent : Kind)
    (before : List Tree) : ∀ ts : List Tree,
    (preorderBeforeAll rest depth start parent before ts).map (·.2) =
      (locate parent start before ts).flatMap all ++ rest.map (·.2)
  | [] => rfl
  | t :: ts => by
    rw [preorderBeforeAll, map_preorderBefore, map_preorderBeforeAll, locate, List.flatMap_cons,
      List.append_assoc]

end

/-- **What stands in a tree is the tree and what stands in those right below it.** -/
theorem all_eq (n : Located) : n.all = n :: n.children.flatMap all := by
  obtain ⟨tree, start, parent, before⟩ := n
  cases tree with
  | token => rfl
  | node kind children =>
    rw [all, preorder, preorderBefore, List.map_cons, map_preorderBeforeAll, List.map_nil,
      List.append_nil]
    rfl

mutual

theorem induct_tree {P : Located → Prop} (h : ∀ n, (∀ c ∈ n.children, P c) → P n) :
    ∀ (t : Tree) (start : Nat) (parent : Option Kind) (before : List Tree),
      P ⟨t, start, parent, before⟩
  | .token _ _, _, _, _ => h _ (by simp [children, Tree.children, locate])
  | .node kind children, start, _, _ => h _ (induct_locate h children kind start [])

theorem induct_locate {P : Located → Prop} (h : ∀ n, (∀ c ∈ n.children, P c) → P n) :
    ∀ (ts : List Tree) (parent : Kind) (start : Nat) (before : List Tree),
      ∀ c ∈ locate parent start before ts, P c
  | [], _, _, _ => by simp [locate]
  | t :: ts, parent, start, before => by
    rw [locate, List.forall_mem_cons]
    exact ⟨induct_tree h t start _ before, induct_locate h ts parent _ _⟩

end

/-- What holds of a tree when it holds of the trees right below it holds of all. -/
@[elab_as_elim]
theorem induct {P : Located → Prop} (h : ∀ n, (∀ c ∈ n.children, P c) → P n) (n : Located) : P n :=
  induct_tree h n.tree n.start n.parent n.before

/-- What holds of trees under a node, one after the other from the last to the first. -/
theorem locate_induct {parent : Kind} {P : Located → Prop}
    {Q : Nat → List Tree → List Located → Prop} (hnil : ∀ start, Q start [] [])
    (hcons : ∀ c ts cs, P c → Q c.stop ts cs → Q c.start (c.tree :: ts) (c :: cs))
    (ts : List Tree) : ∀ (start : Nat) (before : List Tree),
      (∀ c ∈ locate parent start before ts, P c) → Q start ts (locate parent start before ts) := by
  induction ts with
  | nil => exact fun start _ _ => hnil start
  | cons t ts ih =>
    intro start before hts
    obtain ⟨hfirst, hothers⟩ := List.forall_mem_cons.mp hts
    exact hcons _ ts _ hfirst (ih _ _ hothers)

@[simp] theorem map_tree_locate (parent : Kind) (ts : List Tree) :
    ∀ (start : Nat) (before : List Tree), (locate parent start before ts).map (·.tree) = ts := by
  induction ts with
  | nil => exact fun _ _ => rfl
  | cons t ts ih =>
    intro start before
    rw [locate, List.map_cons, ih]

/-- The trees right below a node, without their places. -/
@[simp] theorem map_tree_children (n : Located) : n.children.map (·.tree) = n.tree.children :=
  map_tree_locate ..

theorem tree_mem_of_mem_children {n c : Located} (hc : c ∈ n.children) :
    c.tree ∈ n.tree.children := by
  rw [← map_tree_children]
  exact List.mem_map_of_mem hc

/-! ## Nodes and leaves -/

variable {n d l : Located}

theorem descendants_of_node (h : n.tree.isNode = true) :
    n.descendants = n :: n.children.flatMap descendants := by
  rw [descendants_eq_filter, all_eq, List.filter_cons, if_pos h, List.filter_flatMap]
  rfl

theorem leaves_of_node (h : n.tree.isNode = true) : n.leaves = n.children.flatMap leaves := by
  rw [leaves_eq_filter, all_eq, List.filter_cons_of_neg (by simp [h]), List.filter_flatMap]
  rfl

theorem leaves_of_token (h : n.tree.isNode = false) : n.leaves = [n] := by
  obtain ⟨tree, start, parent, before⟩ := n
  cases tree with
  | token => rfl
  | node => cases h

theorem descendants_of_token (h : n.tree.isNode = false) : n.descendants = [] := by
  obtain ⟨tree, start, parent, before⟩ := n
  cases tree with
  | token => rfl
  | node => cases h

theorem isNode_of_mem_descendants (h : d ∈ n.descendants) : d.tree.isNode = true :=
  (List.mem_filter.mp h).2

theorem isNode_of_mem_leaves (h : l ∈ n.leaves) : l.tree.isNode = false := by
  simpa using (List.mem_filter.mp h).2

/-- What stands under a node is the node itself or stands under one right below it. -/
theorem mem_descendants_iff : d ∈ n.descendants ↔
    n.tree.isNode = true ∧ (d = n ∨ ∃ c ∈ n.children, d ∈ c.descendants) := by
  cases hnode : n.tree.isNode with
  | false => simp [descendants_of_token hnode]
  | true => simp [descendants_of_node hnode]

/-- Leaves of a node in a tree stand side by side among the leaves of the tree. -/
theorem leaves_isInfix (h : d ∈ n.descendants) : d.leaves <:+: n.leaves := by
  induction n using induct with
  | h n ih =>
    obtain ⟨hnode, rfl | ⟨c, hc, hd⟩⟩ := mem_descendants_iff.mp h
    · exact List.infix_rfl
    · rw [leaves_of_node hnode]
      obtain ⟨front, behind, hsplit⟩ := List.append_of_mem hc
      rw [hsplit, List.flatMap_append, List.flatMap_cons]
      exact (ih c hc hd).trans ⟨_, _, List.append_assoc ..⟩

/-- Nodes in a framed tree are framed. -/
theorem framed_of_mem_descendants (h : d ∈ n.descendants) (hn : n.tree.Framed) :
    d.tree.Framed := by
  induction n using induct with
  | h n ih =>
    obtain ⟨hnode, rfl | ⟨c, hc, hd⟩⟩ := mem_descendants_iff.mp h
    · exact hn
    · exact ih c hc hd (hn.of_mem_children (tree_mem_of_mem_children hc))

/-- The root is the first of the nodes of a tree. -/
theorem eq_or_mem_tail (h : d ∈ n.descendants) : d = n ∨ d ∈ n.descendants.tail := by
  have hnode := (mem_descendants_iff.mp h).1
  rw [descendants_of_node hnode] at h ⊢
  exact List.mem_cons.mp h

/-- A node of a tree under whose root all trees are framed is framed, unless it is the root. -/
theorem framed_of_mem_tail (h : d ∈ n.descendants.tail)
    (hn : ∀ t ∈ n.tree.children, t.Framed) : d.tree.isNode = true ∧ d.tree.Framed := by
  refine ⟨isNode_of_mem_descendants (List.mem_of_mem_tail h), ?_⟩
  cases hnode : n.tree.isNode with
  | false => simp [descendants_of_token hnode] at h
  | true =>
    rw [descendants_of_node hnode, List.tail_cons] at h
    obtain ⟨c, hc, hd⟩ := List.mem_flatMap.mp h
    exact framed_of_mem_descendants hd (hn _ (tree_mem_of_mem_children hc))

/-- The kind and the text of a leaf. -/
def label (n : Located) : Kind × String := (n.kind, n.text)

/-- The leaves of a tree are at the places of its leaves. -/
theorem map_label_leaves (n : Located) : n.leaves.map label = n.tree.leaves := by
  induction n using induct with
  | h n ih =>
    obtain ⟨tree, start, parent, before⟩ := n
    cases tree with
    | token kind text =>
      rw [leaves_of_token rfl]
      simp [label, Located.kind, Located.text, Tree.text, Tree.leaves, Tree.leavesBefore,
        Tree.kind, String.join_cons, String.join_nil]
    | node kind children =>
      have hchildren := map_tree_children ⟨.node kind children, start, parent, before⟩
      rw [leaves_of_node rfl, List.map_flatMap, List.flatMap_congr ih, Tree.leaves_node,
        Tree.leavesAll]
      conv_rhs => rw [← show _ = children from hchildren, List.flatMap_map]

/-! ## Nodes right below nodes -/

theorem mem_nodes_iff {c : Located} : c ∈ n.nodes ↔ c ∈ n.children ∧ c.tree.isNode = true :=
  List.mem_filter

/-- What is right below a node knows the kind of the node. -/
theorem parent_of_mem_nodes {c : Located} (h : c ∈ n.nodes) : c.parent = some n.kind := by
  have hlocate : ∀ (ts : List Tree) (start : Nat) (before : List Tree),
      ∀ c ∈ locate n.kind start before ts, c.parent = some n.kind := by
    intro ts
    induction ts with
    | nil => simp [locate]
    | cons t ts ih =>
      intro start before
      rw [locate, List.forall_mem_cons]
      exact ⟨rfl, ih _ _⟩
  exact hlocate _ _ _ c (mem_nodes_iff.mp h).1

/-- The nodes in some trees are the roots of these and the nodes right below others. -/
theorem flatMap_descendants_perm {cs : List Located}
    (h : ∀ c ∈ cs, c.descendants.tail.Perm (c.descendants.flatMap nodes)) :
    (cs.flatMap descendants).Perm
      (cs.filter (·.tree.isNode) ++ (cs.flatMap descendants).flatMap nodes) := by
  induction cs with
  | nil => exact .refl _
  | cons c cs ih =>
    obtain ⟨hc, hcs⟩ := List.forall_mem_cons.mp h
    have hothers := ih hcs
    rw [List.flatMap_cons, List.flatMap_append]
    cases hnode : c.tree.isNode with
    | false =>
      rw [descendants_of_token hnode, List.filter_cons_of_neg (by simp [hnode])]
      exact hothers
    | true =>
      have hroot : c.descendants = c :: c.descendants.tail := by rw [descendants_of_node hnode]; rfl
      rw [List.filter_cons, if_pos hnode]
      calc c.descendants ++ cs.flatMap descendants
          = c :: (c.descendants.tail ++ cs.flatMap descendants) := by
            rw [← List.cons_append, ← hroot]
        _ |>.Perm (c :: (c.descendants.flatMap nodes ++
            (cs.filter (·.tree.isNode) ++ (cs.flatMap descendants).flatMap nodes))) :=
          (hc.append hothers).cons c
        _ |>.Perm (c :: (cs.filter (·.tree.isNode) ++ (c.descendants.flatMap nodes ++
            (cs.flatMap descendants).flatMap nodes))) :=
          (List.perm_append_comm_assoc ..).cons c

/-- **Each node of a tree but the root stands right below one node.** -/
theorem tail_descendants_perm (n : Located) :
    n.descendants.tail.Perm (n.descendants.flatMap nodes) := by
  induction n using induct with
  | h n ih =>
    cases hnode : n.tree.isNode with
    | false => rw [descendants_of_token hnode]; exact .refl _
    | true =>
      rw [descendants_of_node hnode, List.tail_cons, List.flatMap_cons]
      exact flatMap_descendants_perm ih

/-! ## Side by side -/

/-- Trees stand side by side, from one offset up to another. -/
inductive Run : Nat → List Located → Nat → Prop where
  | nil {start} : Run start [] start
  | cons {start n ns stop} : start = n.start → Run n.stop ns stop → Run start (n :: ns) stop

section

variable {start mid stop stop' : Nat} {ns ms : List Located}

theorem Run.append (h : Run start ns mid) (h' : Run mid ms stop) : Run start (ns ++ ms) stop := by
  induction h with
  | nil => exact h'
  | cons hstart _ ih => exact .cons hstart (ih h')

theorem Run.start_eq (h : Run start (n :: ns) stop) : start = n.start := by
  cases h
  assumption

/-- Trees side by side stop at one place. -/
theorem Run.stop_eq (h : Run start ns stop) (h' : Run start ns stop') : stop = stop' := by
  induction h with
  | nil =>
    cases h'
    rfl
  | cons _ _ ih =>
    cases h' with
    | cons _ h' => exact ih h'

theorem Run.exists_of_append (h : Run start (ns ++ ms) stop) :
    ∃ mid, Run start ns mid ∧ Run mid ms stop := by
  induction ns generalizing start with
  | nil => exact ⟨start, .nil, h⟩
  | cons n ns ih =>
    cases h with
    | cons hstart h =>
      obtain ⟨mid, hns, hms⟩ := ih h
      exact ⟨mid, .cons hstart hns, hms⟩

theorem Run.start_le_stop (h : Run start ns stop) : start ≤ stop := by
  induction h with
  | nil => exact Nat.le_refl _
  | @cons start n ns stop hstart _ ih =>
    have hle : n.start ≤ n.stop := Nat.le_add_right ..
    omega

/-- Each of the trees stands between the two ends. -/
theorem Run.le_of_mem (h : Run start ns stop) (hn : n ∈ ns) : start ≤ n.start ∧ n.stop ≤ stop := by
  obtain ⟨front, behind, rfl⟩ := List.append_of_mem hn
  obtain ⟨mid, hfront, hbehind⟩ := h.exists_of_append
  cases hbehind with
  | cons hstart hrest =>
    have hle := hfront.start_le_stop
    exact ⟨by omega, hrest.start_le_stop⟩

/-- The last of the trees stops where they do. -/
theorem Run.stop_eq_of_concat (h : Run start (ns ++ [n]) stop) : stop = n.stop := by
  obtain ⟨mid, -, hlast⟩ := h.exists_of_append
  exact hlast.stop_eq (.cons hlast.start_eq .nil)

end

/-- **The leaves of a tree stand side by side**, from its start to its stop. -/
theorem run_of_leaves (n : Located) : Run n.start n.leaves n.stop := by
  induction n using induct with
  | h n ih =>
    obtain ⟨tree, start, parent, before⟩ := n
    cases tree with
    | token => exact .cons rfl .nil
    | node kind children =>
      rw [leaves_of_node rfl]
      refine locate_induct (Q := fun start ts cs =>
        Run start (cs.flatMap leaves) (start + Tree.sizeAll ts)) ?_ ?_ children start [] ih
      · exact fun _ => .nil
      · intro c ts cs hc hcs
        rw [Tree.sizeAll, ← Nat.add_assoc, List.flatMap_cons]
        exact hc.append hcs

/-- The leaves of a node stand between its ends also when others stand around them. -/
theorem run_around {start stop : Nat} {front behind : List Located} (hne : n.leaves ≠ [])
    (h : Run start (front ++ n.leaves ++ behind) stop) :
    Run start front n.start ∧ Run n.stop behind stop := by
  obtain ⟨last, hleaves, hbehind⟩ := h.exists_of_append
  obtain ⟨first, hfront, hleaves⟩ := hleaves.exists_of_append
  have hrun := run_of_leaves n
  obtain ⟨l, ls, hcons⟩ := List.exists_cons_of_ne_nil hne
  have hfirst : first = n.start := by
    rw [hcons] at hrun hleaves
    rw [hrun.start_eq, hleaves.start_eq]
  subst hfirst
  obtain rfl := hleaves.stop_eq hrun
  exact ⟨hfront, hbehind⟩

/-- A node whose leaves begin and end with significant ones covers what stands from the first
up to the last of its significant tokens. -/
theorem exists_ends (h : Tree.AreFramed n.tree.leaves) : ∃ first last,
    n.leaves.head? = some first ∧ n.leaves.getLast? = some last ∧
      n.significantTokens.head? = some first ∧ n.significantTokens.getLast? = some last ∧
      n.range = ⟨first.start, last.stop⟩ := by
  obtain ⟨⟨l, hl, hfirst⟩, ⟨l', hl', hlast⟩⟩ := h
  rw [← map_label_leaves, List.head?_map] at hl
  rw [← map_label_leaves, List.getLast?_map] at hl'
  obtain ⟨first, hhead, rfl⟩ := Option.map_eq_some_iff.mp hl
  obtain ⟨last, hend, rfl⟩ := Option.map_eq_some_iff.mp hl'
  have hfirst : first.kind.isSignificant = true := hfirst
  have hlast : last.kind.isSignificant = true := hlast
  obtain ⟨others, hcons⟩ := List.head?_eq_some_iff.mp hhead
  obtain ⟨before, hconcat⟩ := List.getLast?_eq_some_iff.mp hend
  have hrun := run_of_leaves n
  refine ⟨first, last, hhead, hend, ?_, ?_, ?_⟩
  · simp [significantTokens, hcons, hfirst]
  · simp [significantTokens, hconcat, List.filter_append, hlast]
  · have hstart : n.start = first.start := by
      rw [hcons] at hrun
      exact hrun.start_eq
    have hstop : n.stop = last.stop := by
      rw [hconcat] at hrun
      exact hrun.stop_eq_of_concat
    rw [range, hstart, hstop]

/-- A leaf has as many bytes as its text. -/
theorem stop_of_leaf (h : l.tree.isNode = false) : l.stop = l.start + l.text.utf8ByteSize := by
  obtain ⟨tree, start, parent, before⟩ := l
  cases tree with
  | token kind text =>
    simp [Located.stop, Tree.size, Located.text, Tree.text, Tree.leaves, Tree.leavesBefore,
      String.join_cons, String.join_nil]
  | node => cases h

/-! ## The first and the last significant token -/

/-- A tree with the offset where it starts, whatever stands around it. -/
def spot (n : Located) : Tree × Nat := (n.tree, n.start)

theorem significantTokens_of_node (h : n.tree.isNode = true) :
    n.significantTokens = n.children.flatMap significantTokens := by
  rw [significantTokens, leaves_of_node h, List.filter_flatMap]
  rfl

theorem significantTokens_of_token (h : n.tree.isNode = false) :
    n.significantTokens = if n.kind.isSignificant then [n] else [] := by
  rw [significantTokens, leaves_of_token h, List.filter_singleton]
  cases n.kind.isSignificant <;> rfl

/-- The first significant token is the first of the significant tokens. -/
theorem firstSignificant?_spot (n : Located) :
    n.firstSignificant?.map spot = n.significantTokens.head?.map spot := by
  induction n using induct with
  | h n ih =>
    obtain ⟨tree, start, parent, before⟩ := n
    cases tree with
    | token kind text =>
      rw [significantTokens_of_token rfl]
      by_cases hkind : kind.isSignificant = true <;>
        simp [firstSignificant?, firstIn?, Located.kind, Tree.kind, spot, hkind]
    | node kind children =>
      rw [significantTokens_of_node rfl]
      refine locate_induct (Q := fun start ts cs =>
        (firstInAll? start ts).map spot = (cs.flatMap significantTokens).head?.map spot)
        ?_ ?_ children start [] ih
      · exact fun _ => rfl
      · intro c ts cs hc hcs
        rw [List.flatMap_cons, List.head?_append, firstInAll?, Option.map_or, Option.map_or, ← hc,
          ← hcs]
        rfl

/-- The last significant token is the last of the significant tokens. -/
theorem lastSignificant?_spot (n : Located) :
    n.lastSignificant?.map spot = n.significantTokens.getLast?.map spot := by
  induction n using induct with
  | h n ih =>
    obtain ⟨tree, start, parent, before⟩ := n
    cases tree with
    | token kind text =>
      rw [significantTokens_of_token rfl]
      by_cases hkind : kind.isSignificant = true <;>
        simp [lastSignificant?, lastIn?, Located.kind, Tree.kind, spot, hkind]
    | node kind children =>
      rw [significantTokens_of_node rfl]
      refine locate_induct (Q := fun start ts cs =>
        (lastInAll? start ts).map spot = (cs.flatMap significantTokens).getLast?.map spot)
        ?_ ?_ children start [] ih
      · exact fun _ => rfl
      · intro c ts cs hc hcs
        rw [List.flatMap_cons, List.getLast?_append, lastInAll?, Option.map_or, Option.map_or, ← hc,
          ← hcs]
        rfl

/-- The first significant one of tokens that are walked one after the other, until the next one
is out of a node. -/
def walk? (isOut : Located → Bool) : List Located → Option Located
  | [] => none
  | [l] => if l.kind.isSignificant then some l else none
  | l :: next :: ls =>
    if l.kind.isSignificant then some l
    else if isOut next then none
    else walk? isOut (next :: ls)

/-- A walk finds the first significant token of a node if, whatever token of the node is out of it,
no significant token of the node follows, and the token behind the node is out of it. -/
theorem walk?_eq {isOut : Located → Bool} {ls others : List Located} (hne : ls ≠ [])
    (hout : ∀ next ∈ others.head?, isOut next = true)
    (hin : ∀ next rest, next :: rest <:+ ls → isOut next = true →
      ∀ l ∈ next :: rest, l.kind.isSignificant = false) :
    walk? isOut (ls ++ others) = (ls.filter (·.kind.isSignificant)).head? := by
  induction ls with
  | nil => exact absurd rfl hne
  | cons l ls ih =>
    cases hl : l.kind.isSignificant with
    | true =>
      rw [List.filter_cons_of_pos (by simpa using hl), List.head?_cons]
      cases hls : ls ++ others with
      | nil => simp [walk?, hls, hl]
      | cons next rest => simp [walk?, hls, hl]
    | false =>
      rw [List.filter_cons_of_neg (by simp [hl])]
      cases ls with
      | nil =>
        cases others with
        | nil => simp [walk?, hl]
        | cons next rest => simp [walk?, hl, hout next rfl]
      | cons next rest =>
        have hrest := ih (List.cons_ne_nil _ _) fun next rest h =>
          hin next rest (h.trans (List.suffix_cons ..))
        cases hnext : isOut next with
        | true =>
          have hnone := hin next rest (List.suffix_cons ..) hnext
          have hnil : (next :: rest).filter (·.kind.isSignificant) = [] :=
            List.filter_eq_nil_iff.mpr fun l hl => by simp [hnone l hl]
          rw [hnil]
          simp [walk?, hl, hnext]
        | false =>
          rw [← hrest]
          simp [walk?, hl, hnext]

/-- Significant tokens are not empty. -/
def AreWide (ls : List Located) : Prop := ∀ l ∈ ls, l.kind.isSignificant = true → l.start < l.stop

/-- **Walking on from the first token of a node**, over it and over what stands behind it, finds
the first of its significant tokens. -/
theorem walk?_forth {stop : Nat} {behind : List Located} (hne : n.leaves ≠ [])
    (hwide : AreWide n.leaves) (hbehind : Run n.stop behind stop) :
    walk? (fun next => n.stop ≤ next.start) (n.leaves ++ behind) = n.significantTokens.head? := by
  refine walk?_eq hne (fun next hnext => ?_) fun next rest hsuffix hout l hl => ?_
  · obtain ⟨rest, rfl⟩ := List.head?_eq_some_iff.mp hnext
    simp [hbehind.start_eq]
  · have hleaves := run_of_leaves n
    obtain ⟨front, hfront⟩ := hsuffix
    rw [← hfront] at hleaves
    obtain ⟨mid, -, hrun⟩ := hleaves.exists_of_append
    obtain ⟨hstart, hstop⟩ := hrun.le_of_mem hl
    rw [hrun.start_eq] at hstart
    by_contra hsignificant
    have hmem : l ∈ n.leaves := by
      rw [← hfront]
      exact List.mem_append_right _ hl
    have hlt := hwide l hmem (by simpa using hsignificant)
    have hle : n.stop ≤ next.start := by simpa using hout
    omega

/-- **Walking back from the last token of a node**, over it and over what stands before it, finds
the last of its significant tokens. -/
theorem walk?_back {start : Nat} {front : List Located} (hne : n.leaves ≠ [])
    (hwide : AreWide n.leaves) (hfront : Run start front n.start) :
    walk? (fun next => next.stop ≤ n.start) (front ++ n.leaves).reverse =
      n.significantTokens.getLast? := by
  rw [List.reverse_append, significantTokens, ← List.head?_reverse, ← List.filter_reverse]
  refine walk?_eq (by simpa using hne) (fun next hnext => ?_) fun next rest hsuffix hout l hl => ?_
  · rw [List.head?_reverse] at hnext
    obtain ⟨before, rfl⟩ := List.getLast?_eq_some_iff.mp hnext
    simp [← hfront.stop_eq_of_concat]
  · have hleaves := run_of_leaves n
    obtain ⟨others, hothers⟩ := hsuffix
    have hsplit : n.leaves = (rest.reverse ++ [next]) ++ others.reverse := by
      rw [← List.reverse_reverse n.leaves, ← hothers, List.reverse_append, List.reverse_cons]
    have hmem : l ∈ rest.reverse ++ [next] := by simpa [or_comm] using hl
    rw [hsplit] at hleaves
    obtain ⟨mid, hrun, -⟩ := hleaves.exists_of_append
    obtain ⟨hstart, hstop⟩ := hrun.le_of_mem hmem
    rw [hrun.stop_eq_of_concat] at hstop
    by_contra hsignificant
    have hlt := hwide l (by rw [hsplit]; exact List.mem_append_left _ hmem)
      (by simpa using hsignificant)
    have hle : next.stop ≤ n.start := by simpa using hout
    omega

end Located
end Packrat
