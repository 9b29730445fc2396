/-
# Rows of children in trees

Building a tree keeps the trees of what has been matched and puts trivia between them.  What stands
right below a node, trivia apart, is therefore laid out as what stands under the node of the match,
and that is a word of the row for its kind (`Parse.run_laid`).  The parts of a node that a row has
are found in the node by the same kinds (`Located.IsLaid`):

| the row | the node |
| --- | --- |
| has a child in a set (`Row.least`) | the first view is there |
| has two | so is the second |
| has one behind a leaf (`Row.leads`) | so is the view behind the token |
| has no nodes but those (`Row.lies`) | each node is a view |
-/

import Packrat.Proofs.Language.Row
import Packrat.Proofs.Parse.Framing
import Packrat.Proofs.Parse.Children
import Packrat.Proofs.Peg.Offer
import Packrat.Proofs.Peg.Word
import Packrat.Proofs.Typed.View

namespace Packrat

open Peg

/-! ## Trees over matches -/

namespace Tree

/-- The child that a tree is. -/
def child : Tree → Child
  | .token kind _ => .leaf kind
  | .node kind _ => .node kind

variable {tokens : Array Token} {ns : List Match} {n : Match} {t : Tree} {kind : Kind}

theorem Of.child_eq (h : Of tokens n t) : t.child = n.child := by
  cases h with
  | token => rfl
  | node => rfl

/-- Right below a tree stand the trees of some matches, with nothing but trivia between them. -/
structure IsOver (tokens : Array Token) (ns : List Match) (t : Tree) : Prop where
  leaves : AreShown tokens (Match.leavesAll ns)
  shown : List.Forall₂ (Of tokens) ns (Tree.shown t.children)
  others : ∀ c ∈ t.children, c ∈ Tree.shown t.children ∨ c.kind.isTrivia = true

/-- The trees of matches are the same children. -/
theorem map_child_eq {ts : List Tree} (h : List.Forall₂ (Of tokens) ns ts) :
    ts.map child = ns.map Match.child := by
  induction h with
  | nil => rfl
  | cons hof _ ih => rw [List.map_cons, List.map_cons, hof.child_eq, ih]

/-- Leaves of what stands in a match are leaves of the match. -/
theorem leaves_of_within {m : Match} (h : m.Within n) : ∀ l ∈ m.leaves, l ∈ n.leaves := by
  induction h with
  | self => exact fun _ hl => hl
  | inner hc _ ih => exact fun l hl => mem_leavesAll hc l (ih l hl)

/-- Matches whose leaves show do so themselves. -/
theorem AreShown.isShown (h : AreShown tokens (Match.leavesAll ns)) :
    ∀ n ∈ ns, n.isShown = true := by
  intro n hn
  cases n with
  | node => rfl
  | token index kind part =>
    exact (h (.token index kind part) (mem_leavesAll hn _ (by simp [Match.leaves]))).2

theorem isTrivia_ofTrivia (v : Trivia) : (ofTrivia v).kind.isTrivia = true := by
  cases hkind : v.kind <;> simp [ofTrivia, Tree.kind, TriviaKind.kind, hkind] <;> decide

/-- The tree of a node of a match is over the trees of what stands under the node. -/
theorem Of.isOver (h : Of tokens (.node kind ns) t)
    (hshown : AreShown tokens (Match.leavesAll ns)) : t.IsOver tokens ns := by
  have hinside := fun l hl => (hshown l hl).1
  cases h
  refine ⟨hshown, forall₂_shown hinside hshown.isShown, fun c hc => ?_⟩
  rcases of_of_mem hinside hc with ⟨v, rfl⟩ | ⟨n, hn, hof⟩
  · exact .inr (isTrivia_ofTrivia v)
  · refine .inl (List.mem_filter.mpr ⟨hc, ?_⟩)
    rw [hof.isShown]
    exact hshown.isShown n hn

/-- Trivia and the end of the text do not show below the root. -/
theorem shown_build (s : TokenStream) (root : Kind) (ns : List Match) :
    shown (build s root ns).children = shown (ofMatches s.tokens 0 ns).1 := by
  unfold build
  cases s.tokens.back? with
  | none => rfl
  | some eof =>
    show shown ((ofMatches s.tokens 0 ns).1 ++ List.map ofTrivia _ ++ [token .eof eof.text]) = _
    rw [shown_append, shown_append, shown_ofTrivia, List.append_nil]
    exact List.append_nil _

end Tree

/-! ## What shows below a node -/

namespace Located

/-- The child that a tree is. -/
def child (n : Located) : Child := n.tree.child

/-- What is right below a node, without trivia and the end of the text. -/
def shown (n : Located) : List Located :=
  n.children.filter fun c => c.tree.isNode || c.kind.isSignificant

/-- The tokens right below a node that are no trivia. -/
def shownTokens (n : Located) : List Located := n.tokens.filter (·.kind.isSignificant)

variable {n c d t : Located}

theorem child_of_node (h : n.tree.isNode = true) : n.child = .node n.kind := by
  obtain ⟨tree, start, parent, before⟩ := n
  cases tree with
  | token => cases h
  | node => rfl

theorem child_of_token (h : n.tree.isNode = false) : n.child = .leaf n.kind := by
  obtain ⟨tree, start, parent, before⟩ := n
  cases tree with
  | token => rfl
  | node => cases h

/-- A node by its kind. -/
theorem exists_tree_eq {kind : Kind} (h : n.tree.isNode = true)
    (hkind : n.kind = kind) : ∃ cs, n.tree = .node kind cs := by
  obtain ⟨tree, start, parent, before⟩ := n
  cases tree with
  | token => cases h
  | node k cs =>
    cases hkind
    exact ⟨cs, rfl⟩

theorem map_tree_shown (n : Located) : n.shown.map (·.tree) = Tree.shown n.tree.children := by
  rw [shown, Tree.shown, ← map_tree_children, List.filter_map]
  rfl

theorem map_child_shown (n : Located) :
    n.shown.map child = (Tree.shown n.tree.children).map Tree.child := by
  rw [← map_tree_shown, List.map_map]
  rfl

theorem nodes_eq_filter_shown (n : Located) : n.nodes = n.shown.filter (·.tree.isNode) := by
  rw [nodes, shown, List.filter_filter]
  exact List.filter_congr fun c _ => by cases c.tree.isNode <;> rfl

theorem shownTokens_eq_filter_shown (n : Located) :
    n.shownTokens = n.shown.filter (!·.tree.isNode) := by
  rw [shownTokens, tokens, shown, List.filter_filter, List.filter_filter]
  refine List.filter_congr fun c _ => ?_
  cases c.tree.isNode <;> simp

/-- The significant tokens of a node are those of what shows right below it. -/
theorem significantTokens_eq_flatMap_shown (h : n.tree.isNode = true) :
    n.significantTokens = n.shown.flatMap significantTokens := by
  rw [significantTokens_of_node h, shown]
  induction n.children with
  | nil => rfl
  | cons c cs ih =>
    rw [List.flatMap_cons, List.filter_cons]
    split
    · rw [List.flatMap_cons, ih]
    · next hhidden =>
      rw [Bool.or_eq_true, not_or, Bool.not_eq_true, Bool.not_eq_true] at hhidden
      rw [significantTokens_of_token hhidden.1, hhidden.2, ih]
      rfl

/-- A token that shows is significant. -/
theorem significantTokens_of_mem_shown (hc : c ∈ n.shown) (htoken : c.tree.isNode = false) :
    c.significantTokens = [c] := by
  have hsignificant : c.kind.isSignificant = true := by
    simpa [htoken] using (List.mem_filter.mp hc).2
  rw [significantTokens_of_token htoken, if_pos hsignificant]

/-- What stands in a tree stands in it as a tree. -/
theorem within_of_mem_descendants (h : d ∈ n.descendants) : d.tree.Within n.tree := by
  induction n using induct with
  | h n ih =>
    obtain ⟨hnode, rfl | ⟨c, hc, hd⟩⟩ := mem_descendants_iff.mp h
    · exact .self
    · have hmem := tree_mem_of_mem_children hc
      obtain ⟨tree, start, parent, before⟩ := n
      cases tree with
      | token => cases hnode
      | node => exact .inner hmem (ih c hc hd)

/-- A node below the root stands in a tree right below it. -/
theorem exists_mem_children_of_mem_tail (h : d ∈ n.descendants.tail) :
    ∃ c ∈ n.children, d ∈ c.descendants := by
  cases hnode : n.tree.isNode with
  | false => simp [descendants_of_token hnode] at h
  | true =>
    rw [descendants_of_node hnode, List.tail_cons] at h
    exact List.mem_flatMap.mp h

/-! ## A row below a node -/

/-- What shows below a node is a word of a row, and the rest is trivia. -/
structure IsLaid (row : Row) (n : Located) : Prop where
  word : n.shown.map child ∈ row.words
  others : ∀ c ∈ n.children, c ∈ n.shown ∨ c.kind.isTrivia = true

/-- Nodes that a position accepts. -/
def nodesOf (accepts : Kind → Bool) : ChildSet where
  nodes := .ofList (Kind.all.filter accepts)

/-- Leaves of some kinds. -/
def leavesOf (kinds : List Kind) : ChildSet where
  leaves := .ofList kinds

/-- A child is a node that a position accepts. -/
def isNodeOf (accepts : Kind → Bool) : Child → Bool
  | .leaf _ => false
  | .node kind => accepts kind

variable {row : Row} {accepts : Kind → Bool} {kinds : List Kind}

theorem isNodeOf_of_mem {child : Child} (h : child ∈ nodesOf accepts) :
    isNodeOf accepts child = true := by
  cases child with
  | leaf kind => exact absurd h KindSet.not_mem_empty
  | node kind => exact (List.mem_filter.mp (KindSet.mem_ofList.mp h)).2

theorem isNodeOf_child (c : Located) :
    isNodeOf accepts c.child = (accepts c.kind && c.tree.isNode) := by
  obtain ⟨tree, start, parent, before⟩ := c
  cases tree with
  | token => exact (Bool.and_false _).symm
  | node => exact (Bool.and_true _).symm

theorem isToken_of_child_eq {kind : Kind} (h : c.child = .leaf kind) :
    c.tree.isNode = false ∧ c.kind = kind := by
  obtain ⟨tree, start, parent, before⟩ := c
  cases tree with
  | token => cases h; exact ⟨rfl, rfl⟩
  | node => cases h

theorem child_mem_iff {set : ChildSet} : c.child ∈ set ↔
    c.tree.isNode = true ∧ c.kind ∈ set.nodes ∨ c.tree.isNode = false ∧ c.kind ∈ set.leaves := by
  obtain ⟨tree, start, parent, before⟩ := c
  cases tree with
  | token => simp [child, Tree.child, Tree.isNode, Located.kind, Tree.kind]
  | node => simp [child, Tree.child, Tree.isNode, Located.kind, Tree.kind]

theorem child_mem_leaves {kinds : KindSet} :
    c.child ∈ ({ leaves := kinds } : ChildSet) ↔ c.tree.isNode = false ∧ c.kind ∈ kinds := by
  simp only [child_mem_iff, KindSet.not_mem_empty, and_false, false_or]

theorem child_mem_nodes {kinds : KindSet} :
    c.child ∈ ({ nodes := kinds } : ChildSet) ↔ c.tree.isNode = true ∧ c.kind ∈ kinds := by
  simp only [child_mem_iff, KindSet.not_mem_empty, and_false, or_false]

/-! What a list is that stands for a word of a leaf or a node. -/

@[simp] theorem mem_words_leaf {kinds : KindSet} {cs : List Located} :
    cs.map child ∈ (Row.leaf kinds).words ↔
      ∃ t, cs = [t] ∧ t.tree.isNode = false ∧ t.kind ∈ kinds := by
  simp only [Row.leaf, Row.mem_words_one, child_mem_leaves]

@[simp] theorem mem_words_node {kinds : KindSet} {cs : List Located} :
    cs.map child ∈ (Row.node kinds).words ↔
      ∃ d, cs = [d] ∧ d.tree.isNode = true ∧ d.kind ∈ kinds := by
  simp only [Row.node, Row.mem_words_one, child_mem_nodes]

theorem mem_nodes_of_mem_shown (hc : c ∈ n.shown) (hnode : c.tree.isNode = true) : c ∈ n.nodes :=
  List.mem_filter.mpr ⟨List.mem_of_mem_filter hc, hnode⟩

theorem mem_tokens_of_mem_shown (hc : c ∈ n.shown) (htoken : c.tree.isNode = false) :
    c ∈ n.tokens :=
  List.mem_filter.mpr ⟨List.mem_of_mem_filter hc, by simp [htoken]⟩

theorem pairwise_shown (n : Located) : n.shown.Pairwise fun a b => a.stop ≤ b.start :=
  n.pairwise_children.sublist List.filter_sublist

namespace IsLaid

/-- There are as many views as the row has at least. -/
theorem le_length_views (h : n.IsLaid row) :
    row.least (nodesOf accepts) ≤ (n.views : List (View accepts)).length := by
  have hle := Row.least_le_countP (p := isNodeOf accepts) (fun _ => isNodeOf_of_mem) h.word
  rw [List.countP_map, List.countP_eq_length_filter] at hle
  rw [length_views, nodes_eq_filter_shown, List.filter_filter]
  refine hle.trans (le_of_eq (congrArg List.length (List.filter_congr fun c _ => ?_)))
  exact isNodeOf_child c

theorem isSome_view? (h : n.IsLaid row) (hrow : 1 ≤ row.least (nodesOf accepts)) :
    (n.view? : Option (View accepts)).isSome = true := by
  rw [view?_eq_head?, List.isSome_head?]
  exact List.ne_nil_of_length_pos (hrow.trans h.le_length_views)

theorem isSome_lastView? (h : n.IsLaid row) (hrow : 1 ≤ row.least (nodesOf accepts)) :
    (n.lastView? : Option (View accepts)).isSome = true :=
  List.getLast?_isSome.mpr (List.ne_nil_of_length_pos (hrow.trans h.le_length_views))

theorem isSome_secondView? (h : n.IsLaid row) (hrow : 2 ≤ row.least (nodesOf accepts)) :
    (n.secondView? : Option (View accepts)).isSome = true := by
  rw [secondView?, List.getElem?_eq_getElem (hrow.trans h.le_length_views), Option.isSome_some]

/-- A view behind a token, if the row has one there. -/
theorem isSome_viewAfter? {k : Kind} (h : n.IsLaid row)
    (hrow : row.leads k (nodesOf accepts) = true) :
    (n.viewAfter? k : Option (View accepts)).isSome = true := by
  obtain ⟨front, behind, hsplit, child, hchild, hset⟩ := Row.exists_of_leads hrow h.word
  obtain ⟨before, rest, hshown, -, hrest⟩ := List.map_eq_append_iff.mp hsplit
  obtain ⟨t, after, rfl, ht, rfl⟩ := List.map_eq_cons_iff.mp hrest
  obtain ⟨c, hc, rfl⟩ := List.mem_map.mp hchild
  have hpair := n.pairwise_shown
  rw [hshown] at hpair
  have hle := List.rel_of_pairwise_cons (List.pairwise_append.mp hpair).2.1 hc
  obtain ⟨htoken, hkind⟩ := isToken_of_child_eq ht
  have haccepts := isNodeOf_of_mem hset
  rw [isNodeOf_child, Bool.and_eq_true] at haccepts
  exact Located.isSome_viewAfter? (mem_tokens_of_mem_shown (by simp [hshown]) htoken) hkind
    (mem_nodes_of_mem_shown (by simp [hshown, hc]) haccepts.2) haccepts.1 hle

/-- A token of some kinds, if the row has one. -/
theorem exists_token (h : n.IsLaid row) (hrow : 0 < row.least (leavesOf kinds)) :
    ∃ t ∈ n.tokens, t.kind ∈ kinds := by
  obtain ⟨child, hchild, hset⟩ := Row.exists_mem_of_least hrow h.word
  obtain ⟨t, ht, rfl⟩ := List.mem_map.mp hchild
  cases hleaf : t.child with
  | node kind =>
    rw [hleaf] at hset
    exact absurd hset KindSet.not_mem_empty
  | leaf kind =>
    rw [hleaf] at hset
    obtain ⟨htoken, rfl⟩ := isToken_of_child_eq hleaf
    exact ⟨t, mem_tokens_of_mem_shown ht htoken, KindSet.mem_ofList.mp hset⟩

/-- The views are all nodes of the kinds that are kept, if the row has no other nodes than those on
which the position agrees with that. -/
theorem map_node_views (h : n.IsLaid row) {keep : Kind → Bool}
    (hrow : row.lies ⟨.ofList Kind.all, .ofList (Kind.all.filter fun k => accepts k == keep k)⟩ =
      true) :
    (n.views : List (View accepts)).map (·.node) = n.nodes.filter fun c => keep c.kind := by
  rw [Located.map_node_views]
  refine List.filter_congr fun c hc => ?_
  rw [nodes_eq_filter_shown] at hc
  obtain ⟨hshown, hnode⟩ := List.mem_filter.mp hc
  have hset := Row.mem_of_lies hrow h.word c.child (List.mem_map_of_mem hshown)
  obtain ⟨tree, start, parent, before⟩ := c
  cases tree with
  | token => cases hnode
  | node => exact eq_of_beq (List.mem_filter.mp (KindSet.mem_ofList.mp hset)).2

end IsLaid

/-! ## Over what a term gives -/

/-- Right below a node stand the trees of what a term can give. -/
def IsOf (g : Grammar) (tokens : Array Token) (t : Term) (n : Located) : Prop :=
  ∃ ms, n.tree.IsOver tokens ms ∧ g.Yields (.term t) ms

variable {g : Grammar} {tokens : Array Token} {t : Term}

/-- What a term gives is laid out as its row. -/
theorem IsOf.isLaid (h : n.IsOf g tokens t) {k : Nat}
    (hrow : Row.isWithin k (t.row (g.rowOf k)) row = true) : n.IsLaid row := by
  obtain ⟨ms, hover, hyields⟩ := h
  refine ⟨?_, fun c hc => ?_⟩
  · rw [map_child_shown, Tree.map_child_eq hover.shown]
    exact Row.words_le_of_isWithin hrow (hyields.isRowed k)
  · refine (hover.others _ (tree_mem_of_mem_children hc)).imp (fun hshown => ?_) id
    exact List.mem_filter.mpr ⟨hc, (List.mem_filter.mp hshown).2⟩

/-- A node right below another is over what a term gives that has passed the checks for it. -/
theorem IsOf.exists_child (h : n.IsOf g tokens t) (hc : c ∈ n.nodes)
    {check : Kind → Term → Bool} {k : Nat} (hoffers : g.offers check k t = true) :
    ∃ u, check c.kind u = true ∧ c.IsOf g tokens u := by
  obtain ⟨ms, hover, hyields⟩ := h
  obtain ⟨hchild, hnode⟩ := List.mem_filter.mp hc
  have hshown : c.tree ∈ Tree.shown n.tree.children :=
    List.mem_filter.mpr ⟨tree_mem_of_mem_children hchild, by rw [hnode, Bool.true_or]⟩
  obtain ⟨m, hm, hof⟩ := Tree.exists_of_forall₂ hover.shown hshown
  obtain ⟨inner, rfl⟩ := hof.exists_node hnode
  obtain ⟨u, hcheck, hu⟩ := hyields.isOffered check k hoffers _ _ hm
  refine ⟨u, hcheck, inner, hof.isOver fun l hl => ?_, hu⟩
  exact hover.leaves l (Tree.mem_leavesAll hm l hl)

end Located

/-! ## In the trees of runs -/

namespace Parse

variable {text : List Char} {s : TokenStream} {p : Parse} {d : Located}

/-- Under the root stand the trees of what it matches, and under a node below it the trees of what
stands under a node of that. -/
theorem exists_over (hs : TokenStream.ofText text = .ok s) {root : Term}
    (hroot : ∀ g, ∀ t ∈ root.parts, Language.isPlain g t = true) {options : ParseOptions}
    {memo : Memo} (h : (run root options s memo).1 = .ok p) :
    ∃ (m : Machine) (ns : List Match) (stop : Pos), Language.grammar = .ok m.grammar ∧
      Parses m {} (.term root) {} (some (ns, stop)) ∧
      p.root.shown.map (·.child) = ns.map Match.child ∧
      ∀ d ∈ p.root.descendants.tail, ∃ ms, (∃ n ∈ ns, (Match.node d.kind ms).Within n) ∧
        d.tree.IsOver s.tokens ms := by
  obtain ⟨m, ns, stop, stats, hg, htokens, hparses, htiles, rfl⟩ := exists_build hs hroot h
  have hshown := htiles.areShown htokens hs (Machine.isCutPlace_index 0)
  have hinside := fun l hl => (hshown l hl).1
  refine ⟨m, ns, stop, hg, hparses, ?_, fun d hd => ?_⟩
  · rw [Located.map_child_shown]
    exact (congrArg (List.map Tree.child) (Tree.shown_build s .sourceFile ns)).trans
      (Tree.map_child_eq (Tree.forall₂_shown hinside hshown.isShown))
  · obtain ⟨c, hc, hd⟩ := Located.exists_mem_children_of_mem_tail hd
    obtain ⟨children, hbuild, hmem⟩ := mem_build .sourceFile hinside
    have hchild : c.tree ∈ (Tree.build s .sourceFile ns).children :=
      Located.tree_mem_of_mem_children hc
    rw [hbuild] at hchild
    have hnode := Located.isNode_of_mem_descendants hd
    rcases hmem c.tree hchild with ⟨kind, text, htoken⟩ | ⟨n, hn, hof⟩
    · rw [Located.descendants_of_token (by rw [htoken]; rfl)] at hd
      cases hd
    · rcases Tree.exists_of_within (Located.within_of_mem_descendants hd) hof fun l hl =>
        hinside l (Tree.mem_leavesAll hn l hl) with ⟨v, hv⟩ | ⟨m', hwithin, hof, -⟩
      · rw [hv] at hnode
        cases hnode
      · obtain ⟨ms, rfl⟩ := hof.exists_node hnode
        refine ⟨ms, ⟨n, hn, hwithin⟩, hof.isOver fun l hl => ?_⟩
        exact hshown l (Tree.mem_leavesAll hn l (Tree.leaves_of_within hwithin l hl))

/-- **Each node below the root is over what a term gives** that the grammar makes nodes of its kind
of. -/
theorem exists_isOf (hs : TokenStream.ofText text = .ok s) {root : Term}
    (hroot : ∀ g, ∀ t ∈ root.parts, Language.isPlain g t = true)
    (hknows : ∀ g : Grammar, g.Knows root) {options : ParseOptions} {memo : Memo}
    (h : (run root options s memo).1 = .ok p) : ∃ g, Language.grammar = .ok g ∧
      ∀ d ∈ p.root.descendants.tail, ∃ t, g.Makes d.kind t ∧ d.IsOf g s.tokens t := by
  obtain ⟨m, ns, stop, hg, hparses, -, hover⟩ := exists_over hs hroot h
  refine ⟨m.grammar, hg, fun d hd => ?_⟩
  obtain ⟨ms, ⟨n, hn, hwithin⟩, hd⟩ := hover d hd
  have hmade := (hparses.yields ns stop rfl).isMade (hknows _) n hn
  obtain ⟨t, hmakes, hyields⟩ := (hmade.of_within hwithin).exists_makes
  exact ⟨t, hmakes, ms, hd, hyields⟩

/-- The nodes of a tree are laid out: below the root each as the table of rows says. -/
structure IsLaidOut (p : Parse) : Prop where
  kind_root : p.root.kind = .sourceFile
  laid : ∀ d ∈ p.root.descendants.tail, ∀ row, Language.rowUnder d.kind = some row → d.IsLaid row

/-- **In a tree over the tokens of a text the nodes are laid out**, whatever rule its root is
matched by. -/
theorem run_laidOut (hs : TokenStream.ofText text = .ok s) {root : Term}
    (hroot : ∀ g, ∀ t ∈ root.parts, Language.isPlain g t = true)
    (hknows : ∀ g : Grammar, g.Knows root) {options : ParseOptions} {memo : Memo}
    (h : (run root options s memo).1 = .ok p) : p.IsLaidOut := by
  refine ⟨Parse.kind_root hs hroot h, fun d hd row hrow => ?_⟩
  obtain ⟨g, hg, hover⟩ := exists_isOf hs hroot hknows h
  obtain ⟨t, hmakes, hd⟩ := hover d hd
  have hwithin := hmakes.check (Language.lays_grammar hg)
  rw [hrow, Option.all_some] at hwithin
  exact hd.isLaid hwithin

/-- The nodes are laid out in every tree of a file or of another construct. -/
theorem parsing_laidOut (text : List Char) (options : ParseOptions) :
    (∀ p, ofText text options = .ok p → p.IsLaidOut) ∧
      (∀ s memo p, TokenStream.ofText text = .ok s → (ofStream options s memo).1 = .ok p →
        p.IsLaidOut) ∧
      ∀ entry p, ofEntry entry text options = .ok p → p.IsLaidOut := by
  have hstream : ∀ s memo p, TokenStream.ofText text = .ok s →
      (ofStream options s memo).1 = .ok p → p.IsLaidOut := fun s memo p hs h =>
    run_laidOut hs (fun g => Language.isPlain_rule Language.fileRule.name)
      (fun g => g.knows_rule Language.fileRule.name) h
  refine ⟨fun p h => ?_, hstream, fun entry p h => ?_⟩
  · obtain ⟨s, hs, hrun⟩ := exists_stream h
    exact hstream s {} p hs hrun
  · obtain ⟨s, hs, hrun⟩ := exists_stream h
    exact run_laidOut hs (fun g => Language.isPlain_rule_ended entry.ruleName)
      (fun g => g.knows_rule_ended entry.ruleName) hrun

/-- What shows right below a root is a word of the row of its term. -/
theorem run_root_mem (hs : TokenStream.ofText text = .ok s) {root : Term}
    (hroot : ∀ g, ∀ t ∈ root.parts, Language.isPlain g t = true) {row : Row} {n : Nat}
    (hrow : ∀ g, Language.grammar = .ok g → Row.isWithin n (root.row (g.rowOf n)) row = true)
    {options : ParseOptions} {memo : Memo} (h : (run root options s memo).1 = .ok p) :
    p.root.shown.map (·.child) ∈ row.words := by
  obtain ⟨m, ns, stop, hg, hparses, hshown, -⟩ := exists_over hs hroot h
  rw [hshown]
  exact Row.words_le_of_isWithin (hrow _ hg) ((hparses.yields ns stop rfl).isRowed n)

variable {k : Kind} {v : View (only k)}

/-- Views of other kinds than a file's stand below the root. -/
theorem IsLaidOut.mem_tail_view (h : p.IsLaidOut) (hv : v ∈ p.root.viewsWithin)
    (hk : k ≠ .sourceFile) : v.node ∈ p.root.descendants.tail := by
  have hkind : v.node.kind = k := by simpa [only] using v.accepted
  refine (Located.eq_or_mem_tail (Located.node_mem_descendants hv)).resolve_left fun heq => ?_
  rw [heq, h.kind_root] at hkind
  exact hk hkind.symm

/-- They are laid out. -/
theorem IsLaidOut.isLaid_view (h : p.IsLaidOut) (hv : v ∈ p.root.viewsWithin)
    (hk : (k != .sourceFile && (Language.rowUnder k).isSome) = true) :
    v.node.IsLaid ((Language.rowUnder k).getD .any) := by
  obtain ⟨hne, hsome⟩ := Bool.and_eq_true_iff.mp hk
  obtain ⟨row, hrow⟩ := Option.isSome_iff_exists.mp hsome
  have hkind : v.node.kind = k := by simpa [only] using v.accepted
  rw [hrow, Option.getD_some]
  exact h.laid _ (h.mem_tail_view hv (bne_iff_ne.mp hne)) row (by rw [hkind, hrow])

end Parse
end Packrat
