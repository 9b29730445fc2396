/-
# Imported paths along the ways to the leaves

A tree of imports has a leaf for each path and each star that is imported.  From the root to a leaf
there is one way (`Tree.ways`):

| right below a tree of imports | on the way |
| --- | --- |
| a path, a star | all of its tokens |
| `::` | itself |
| a group | the way through one of its branches, without braces, commas and other branches |
| a renaming | nothing |

Flattening gives the tokens on each way, in the order of the text, with one exception: where a tree
has no path, the `::` before its star or group is left out.
-/

import Packrat.Proofs.Lexeme.Munch
import Packrat.Proofs.Parse.Computed
import Packrat.Proofs.Parse.Rows
import Packrat.Typed.Import

namespace Packrat

open Peg

/-! ## Tokens in trees -/

/-- A lexeme of the kind of a punctuator is spelled as the punctuator is. -/
theorem Lexeme.IsScanned.spelling?_eq {kind : Kind} {text : List Char} (h : IsScanned kind text)
    (hkind : kind.isPunctuator = true) : kind.spelling? = some (String.ofList text) := by
  obtain ⟨before, c, cs, hresult, rfl⟩ := h
  have hmunched := (scan_takes before c cs kind hresult).isMunched
  exact Kind.spelling?_of_mem_punctuators (hmunched.mark hkind).1

namespace Parse

variable {text : List Char} {p : Parse}

/-- Punctuators in a tree that has lost nothing are spelled as they are in the table. -/
theorem Lossless.spelling?_eq (h : Lossless text p) {l : Kind × String} (hl : l ∈ p.tree.leaves)
    (hsignificant : l.1.isSignificant = true) (hmark : l.1.isPunctuator = true) :
    l.1.spelling? = some l.2 := by
  obtain ⟨ts, eof, groups, htoks, -, hcarries, hleaves⟩ := h.tokens
  obtain ⟨ts', eof', htoks', -, -, hscanned⟩ := TokenStream.ofText_tokens h.stream
  obtain ⟨rfl, -⟩ := List.append_inj' (htoks.symm.trans htoks') rfl
  have hmem : l ∈ groups.flatten := by
    rw [← hleaves]
    exact List.mem_filter.mpr ⟨hl, hsignificant⟩
  clear htoks hleaves htoks'
  induction hcarries with
  | nil => cases hmem
  | @cons t group ts groups hcarry _ ih =>
    obtain ⟨ht, hts⟩ := List.forall_mem_cons.mp hscanned
    rw [List.flatten_cons, List.mem_append] at hmem
    refine hmem.elim (fun hmem => ?_) (ih hts)
    cases hcarry with
    | whole =>
      obtain rfl := List.mem_singleton.mp hmem
      have hspell := ht.2.spelling?_eq hmark
      rwa [String.ofList_toList] at hspell
    | pieces _ _ hspell _ => exact hspell l hmem

end Parse

namespace Tree

/-! ## Ways -/

/-- One after the other: each of the first ways with each of the others behind it. -/
def inTurn (first others : List (List String)) : List (List String) :=
  first.flatMap fun way => others.map (way ++ ·)

/-- No path is among some trees. -/
def lacksPath (cs : List Tree) : Bool := !cs.any fun t => t.isNode && t.kind == .path

/-- The tree is a double colon of its own. -/
def isColons (t : Tree) : Bool := !t.isNode && t.kind == .colonColon

mutual

/-- The ways from a tree of imports to its leaves, in the order of the text: on each the texts of
its tokens.  If not each `::` is to be kept, those are left out that stand right below a tree without
a path. -/
def ways (kept : Bool) : Tree → List (List String)
  | node .useTree cs => waysAll kept (!kept && lacksPath cs) cs
  | node .useTreeList cs => branchWays kept cs
  | node .rename _ => [[]]
  | t => [t.significantTexts]

/-- The ways through some trees one after the other, if need be without `::`. -/
def waysAll (kept bare : Bool) : List Tree → List (List String)
  | [] => [[]]
  | t :: ts =>
    inTurn (if bare && t.isColons then [[]] else ways kept t) (waysAll kept bare ts)

/-- The ways through the branches among some trees, those through the first one first. -/
def branchWays (kept : Bool) : List Tree → List (List String)
  | [] => []
  | t :: ts =>
    (if t.isNode && t.kind == .useTree then ways kept t else []) ++ branchWays kept ts

end

variable {kept bare : Bool} {t : Tree} {cs ts : List Tree} {kind : Kind} {text : String}

@[simp] theorem kind_token (kind : Kind) (text : String) : (token kind text).kind = kind := rfl

@[simp] theorem kind_node (kind : Kind) (cs : List Tree) : (node kind cs).kind = kind := rfl

@[simp] theorem isNode_token (kind : Kind) (text : String) : (token kind text).isNode = false := rfl

@[simp] theorem isNode_node (kind : Kind) (cs : List Tree) : (node kind cs).isNode = true := rfl

@[simp] theorem inTurn_singleton (way : List String) (others : List (List String)) :
    inTurn [way] others = others.map (way ++ ·) := by
  simp [inTurn]

theorem ways_token (kept : Bool) (kind : Kind) (text : String) :
    ways kept (token kind text) = [if kind.isSignificant then [text] else []] := by
  show [(token kind text).significantTexts] = _
  cases hkind : kind.isSignificant <;> simp [significantTexts, leaves, leavesBefore, hkind]

theorem ways_path (kept : Bool) (cs : List Tree) :
    ways kept (node .path cs) = [(node .path cs).significantTexts] := by
  rfl

/-- If no `::` is left out anywhere below, none is missing on the ways. -/
theorem waysAll_congr (h : ∀ t ∈ cs, ways false t = ways true t)
    (hbare : bare = true → cs.any isColons = false) :
    waysAll false bare cs = waysAll true false cs := by
  induction cs with
  | nil => rfl
  | cons t ts ih =>
    have hcolons : (bare && t.isColons) = false := by
      cases bare with
      | false => rfl
      | true => exact (Bool.or_eq_false_iff.mp (hbare rfl)).1
    have hrest := ih (fun t ht => h t (List.mem_cons_of_mem _ ht))
      fun hb => (Bool.or_eq_false_iff.mp (hbare hb)).2
    rw [waysAll, waysAll, hcolons, hrest, h t List.mem_cons_self]
    rfl

theorem branchWays_congr (h : ∀ t ∈ cs, ways false t = ways true t) :
    branchWays false cs = branchWays true cs := by
  induction cs with
  | nil => rfl
  | cons t ts ih =>
    rw [branchWays, branchWays, h t List.mem_cons_self,
      ih fun t ht => h t (List.mem_cons_of_mem _ ht)]

/-! ## Trivia -/

/-- What does not show is a token that is not significant. -/
theorem exists_of_hidden (h : (t.isNode || t.kind.isSignificant) = false) :
    ∃ kind text, t = token kind text ∧ kind.isSignificant = false := by
  cases t with
  | token kind text => exact ⟨kind, text, rfl, h⟩
  | node => cases h

/-- What passes over hidden tokens does not change when they are taken out. -/
theorem shown_eq {α : Type} {f : List Tree → α}
    (hhidden : ∀ kind text ts, kind.isSignificant = false → f (token kind text :: ts) = f ts)
    (hcons : ∀ t ts ts', f ts = f ts' → f (t :: ts) = f (t :: ts')) (cs : List Tree) :
    f (shown cs) = f cs := by
  induction cs with
  | nil => rfl
  | cons t ts ih =>
    rw [shown, List.filter_cons]
    split
    · exact hcons t _ _ ih
    · next hshows =>
      obtain ⟨kind, text, rfl, hkind⟩ := exists_of_hidden (Bool.eq_false_iff.mpr hshows)
      exact ih.trans (hhidden kind text ts hkind).symm

theorem waysAll_shown (kept bare : Bool) (cs : List Tree) :
    waysAll kept bare (shown cs) = waysAll kept bare cs := by
  refine shown_eq (fun kind text ts hkind => ?_) (fun t ts ts' h => ?_) cs
  · rw [waysAll, ways_token, hkind]
    simp
  · rw [waysAll, waysAll, h]

theorem ne_of_isSignificant {k : Kind} (hk : k.isSignificant = true)
    (hkind : kind.isSignificant = false) : (kind == k) = false := by
  refine beq_eq_false_iff_ne.mpr ?_
  rintro rfl
  rw [hk] at hkind
  cases hkind

theorem lacksPath_shown (cs : List Tree) : lacksPath (shown cs) = lacksPath cs := by
  refine shown_eq (fun kind text ts hkind => ?_) (fun t ts ts' h => ?_) cs
  · rfl
  · rw [lacksPath, lacksPath, Bool.not_inj_iff] at h ⊢
    rw [List.any_cons, List.any_cons, h]

theorem hasStar_shown (cs : List Tree) : hasStar (shown cs) = hasStar cs := by
  refine shown_eq (fun kind text ts hkind => ?_) (fun t ts ts' h => ?_) cs
  · have hstar : ((token kind text).kind == .star) = false := ne_of_isSignificant rfl hkind
    rw [hasStar, hasStar, List.any_cons, hstar, Bool.and_false, Bool.false_or]
  · rw [hasStar, hasStar] at h ⊢
    rw [List.any_cons, List.any_cons, h]

theorem pathText_shown (cs : List Tree) : pathText (shown cs) = pathText cs := by
  refine shown_eq (fun kind text ts hkind => rfl) (fun t ts ts' h => ?_) cs
  rw [pathText.eq_def (t :: ts), pathText.eq_def (t :: ts')]
  split <;> simp_all

theorem groupImports?_shown (cs : List Tree) : groupImports? (shown cs) = groupImports? cs := by
  refine shown_eq (fun kind text ts hkind => rfl) (fun t ts ts' h => ?_) cs
  rw [groupImports?.eq_def (t :: ts), groupImports?.eq_def (t :: ts')]
  simp only
  split
  · rfl
  · exact h

/-! ## Flattening -/

/-- Flattening some paths gives what is on some ways, and on each way is something. -/
def Flattens (paths : List String) (ways : List (List String)) : Prop :=
  paths = ways.map String.join ∧ ∀ way ∈ ways, String.join way ≠ ""

/-- A path and its tokens. -/
structure IsPath (cs : List Tree) : Prop where
  plain : (node .path cs).plainText = String.join (node .path cs).significantTexts
  ne_empty : (node .path cs).plainText ≠ ""

/-- What may stand before a star or a group. -/
inductive IsLead : List Tree → Prop where
  | nil : IsLead []
  | bare : IsLead [token .colonColon "::"]
  | path {cs : List Tree} : IsPath cs → IsLead [node .path cs, token .colonColon "::"]

/-- What may stand right below a tree of imports. -/
inductive IsImport : List Tree → Prop where
  | star {lead : List Tree} : IsLead lead → IsImport (lead ++ [token .star "*"])
  | group {lead branches : List Tree} : IsLead lead →
    IsImport (lead ++ [node .useTreeList branches])
  | path {cs : List Tree} : IsPath cs → IsImport [node .path cs]
  | renamed {cs rs : List Tree} : IsPath cs → IsImport [node .path cs, node .rename rs]

/-- Texts that are not all empty are not empty one after the other. -/
theorem join_ne_empty {words : List String} {word : String} (hword : word ∈ words)
    (hne : word ≠ "") : String.join words ≠ "" := by
  obtain ⟨front, behind, rfl⟩ := List.append_of_mem hword
  rw [String.join_append, String.join_cons]
  intro hempty
  exact hne (String.append_eq_empty_iff.mp (String.append_eq_empty_iff.mp hempty).2).1

theorem joinPaths_empty (inner : String) : joinPaths "" inner = inner := if_pos rfl

theorem joinPaths_of_ne_empty {outer inner : String} (ho : outer ≠ "") (hi : inner ≠ "") :
    joinPaths outer inner = outer ++ "::" ++ inner := by
  rw [joinPaths, if_neg (by simpa using ho), if_neg (by simpa using hi)]

/-- The first path among some trees, if the first tree is none. -/
theorem pathText_cons (h : t.kind ≠ .path) : pathText (t :: ts) = pathText ts := by
  rw [pathText.eq_def]
  split
  · next heq => cases heq
  · next heq =>
    cases heq
    exact absurd rfl h
  · next heq =>
    cases heq
    rfl

/-- What stands before a star or a group is put before its ways. -/
theorem IsLead.flattens {lead : List Tree} (h : IsLead lead) (hpath : t.kind ≠ .path)
    (hcolon : t.kind ≠ .colonColon) {inner : List String} (hinner : Flattens inner (ways false t)) :
    Flattens (inner.map (joinPaths (pathText (lead ++ [t]))))
      (waysAll false (lacksPath (lead ++ [t])) (lead ++ [t])) := by
  obtain ⟨rfl, hne⟩ := hinner
  have hlast : ∀ bare, waysAll false bare [t] = ways false t := by
    intro bare
    simp [waysAll, isColons, hcolon, inTurn]
  cases h with
  | nil =>
    have hways : waysAll false (lacksPath [t]) [t] = ways false t := hlast _
    rw [List.nil_append, pathText_cons hpath, hways]
    refine ⟨?_, hne⟩
    simp [pathText, joinPaths_empty]
  | bare =>
    have hways : waysAll false (lacksPath [token .colonColon "::", t])
        [token .colonColon "::", t] = ways false t := by
      rw [waysAll, hlast]
      simp [lacksPath, isColons, hpath]
    rw [List.singleton_append, pathText_cons (by simp), pathText_cons hpath, hways]
    refine ⟨?_, hne⟩
    simp [pathText, joinPaths_empty]
  | @path cs hcs =>
    have hcolon : ways false (token .colonColon "::") = [["::"]] := rfl
    have hways : waysAll false (lacksPath [node .path cs, token .colonColon "::", t])
        [node .path cs, token .colonColon "::", t] =
          (ways false t).map ((node .path cs).significantTexts ++ "::" :: ·) := by
      rw [waysAll, waysAll, hlast]
      simp [lacksPath, isColons, ways_path, hcolon, Function.comp_def]
    rw [List.cons_append, List.singleton_append, hways]
    constructor
    · rw [List.map_map, List.map_map]
      refine List.map_congr_left fun way hway => ?_
      have hjoin : joinPaths (node .path cs).plainText (String.join way) = _ :=
        joinPaths_of_ne_empty hcs.ne_empty (hne way hway)
      rw [hcs.plain] at hjoin
      simpa [pathText, hcs.plain, String.join_append, String.join_cons, String.append_assoc]
        using hjoin
    · intro way hway
      obtain ⟨way, hmem, rfl⟩ := List.mem_map.mp hway
      have hpath := hcs.ne_empty
      rw [hcs.plain] at hpath
      simp [String.join_append, hpath]

/-- **A tree of imports flattens to what is on its ways**, if its group does. -/
theorem IsImport.flattens (h : IsImport (shown cs))
    (hgroup : ∀ branches, node .useTreeList branches ∈ cs →
      Flattens (branchImports branches) (branchWays false branches)) :
    Flattens (imports (node .useTree cs)) (ways false (node .useTree cs)) := by
  have hways : ways false (node .useTree cs) =
      waysAll false (lacksPath (shown cs)) (shown cs) := by
    rw [lacksPath_shown, waysAll_shown]
    rfl
  have himports : imports (node .useTree cs) = (groupImports? (shown cs)).elim
      (if hasStar (shown cs) then [joinPaths (pathText (shown cs)) "*"] else [pathText (shown cs)])
      (List.map (joinPaths (pathText (shown cs)))) := by
    rw [groupImports?_shown, pathText_shown, hasStar_shown, imports]
    cases groupImports? cs <;> rfl
  have hmem : ∀ t ∈ shown cs, t ∈ cs := fun t ht => List.mem_of_mem_filter ht
  rw [hways, himports]
  generalize shown cs = shown at h hmem
  cases h with
  | @star lead hlead =>
    have hno : groupImports? (lead ++ [token .star "*"]) = none := by cases hlead <;> rfl
    have hstar : hasStar (lead ++ [token .star "*"]) = true := by simp [hasStar]
    have hlast : Flattens ["*"] (ways false (token .star "*")) := by
      rw [show ways false (token .star "*") = [["*"]] from rfl]
      simp [Flattens, String.join_cons]
    rw [hno, hstar]
    exact hlead.flattens (by simp) (by simp) hlast
  | @group lead branches hlead =>
    have hsome : groupImports? (lead ++ [node .useTreeList branches]) =
        some (branchImports branches) := by
      cases hlead <;> rfl
    rw [hsome]
    exact hlead.flattens (by simp) (by simp) (hgroup branches (hmem _ (by simp)))
  | @path ps hpath =>
    have hway : waysAll false (lacksPath [node .path ps]) [node .path ps] =
        [(node .path ps).significantTexts] := by
      simp [waysAll, isColons, ways_path]
    rw [hway]
    exact ⟨by simp [groupImports?, hasStar, pathText, hpath.plain],
      by simpa [hpath.plain] using hpath.ne_empty⟩
  | @renamed ps rs hpath =>
    have hway : waysAll false (lacksPath [node .path ps, node .rename rs])
        [node .path ps, node .rename rs] = [(node .path ps).significantTexts] := by
      have hrename : ways false (node .rename rs) = [[]] := rfl
      simp [waysAll, isColons, ways_path, hrename]
    rw [hway]
    exact ⟨by simp [groupImports?, hasStar, pathText, hpath.plain],
      by simpa [hpath.plain] using hpath.ne_empty⟩

/-- Branches flatten one after the other. -/
theorem flattens_branches (h : ∀ t ∈ cs, t.isNode = true → t.kind = .useTree →
    Flattens (imports t) (ways false t)) : Flattens (branchImports cs) (branchWays false cs) := by
  induction cs with
  | nil => exact ⟨rfl, by simp [branchWays]⟩
  | cons t ts ih =>
    obtain ⟨heq, hne⟩ := ih fun t ht => h t (List.mem_cons_of_mem _ ht)
    rw [branchImports, branchWays]
    split
    · next htree =>
      obtain ⟨hnode, hkind⟩ := Bool.and_eq_true_iff.mp htree
      obtain ⟨heq', hne'⟩ := h t List.mem_cons_self hnode (eq_of_beq hkind)
      refine ⟨by rw [heq, heq', List.map_append], fun way hway => ?_⟩
      exact (List.mem_append.mp hway).elim (hne' way) (hne way)
    · exact ⟨heq, hne⟩

end Tree

namespace UseTree

/-- Right below the tree is a `::`, but no path. -/
def isBare (t : UseTree) : Bool := t.path?.isNone && t.node.has .colonColon

/-- Flattened, the tree gives what is on the ways to its leaves. -/
structure FollowsWays (t : UseTree) : Prop where
  /-- It gives a path for each leaf, in the order of the text: the tokens on the way there, other
  than a `::` right below a tree without a path. -/
  flatten_eq : t.flatten = (t.node.tree.ways false).map String.join
  /-- If there is no such `::`, it gives all tokens on the way. -/
  of_not_bare : (∀ u : UseTree, u ∈ t.node.viewsWithin → u.isBare = false) →
    t.flatten = (t.node.tree.ways true).map String.join

end UseTree

namespace Located

variable {n : Located}

theorem has_colonColon (n : Located) : n.has .colonColon = n.tree.children.any Tree.isColons := by
  rw [has, tokens, List.any_filter, ← map_tree_children, List.any_map]
  rfl

theorem isNone_path? (n : Located) :
    (n.view? : Option Path).isNone = Tree.lacksPath n.tree.children := by
  have has : ∀ c : Located, (c.as? : Option Path).isSome = (c.kind == .path) := by
    intro c
    rw [as?]
    split
    · next hkind => exact hkind.symm
    · next hkind => exact (Bool.eq_false_iff.mpr hkind).symm
  rw [← Option.not_isSome, view?, List.isSome_findSome?, nodes, List.any_filter,
    Tree.lacksPath, ← map_tree_children, List.any_map]
  simp only [has]
  rfl

/-- **Without a `::` that is bare, nothing is missing on the ways.** -/
theorem ways_eq (h : ∀ u : UseTree, u ∈ n.viewsWithin → u.isBare = false) :
    n.tree.ways false = n.tree.ways true := by
  induction n using Located.induct with
  | h n ih =>
    cases hnode : n.tree.isNode with
    | false =>
      obtain ⟨tree, start, parent, before⟩ := n
      cases tree with
      | token => rw [Tree.ways_token, Tree.ways_token]
      | node => cases hnode
    | true =>
      have hchildren : ∀ t ∈ n.tree.children, t.ways false = t.ways true := by
        intro t ht
        rw [← map_tree_children] at ht
        obtain ⟨c, hc, rfl⟩ := List.mem_map.mp ht
        refine ih c hc fun u hu => h u ?_
        obtain ⟨d, hd, hu⟩ := List.mem_filterMap.mp hu
        exact List.mem_filterMap.mpr ⟨d, mem_descendants_iff.mpr ⟨hnode, .inr ⟨c, hc, hd⟩⟩, hu⟩
      obtain ⟨cs, hcs⟩ := exists_tree_eq hnode rfl
      rw [hcs] at hchildren ⊢
      by_cases htree : n.kind = .useTree
      · have hbare := h ⟨n, by simp [only, htree]⟩ (List.mem_filterMap.mpr
          ⟨n, mem_descendants_iff.mpr ⟨hnode, .inl rfl⟩, as?_eq_some _⟩)
        rw [htree]
        refine Tree.waysAll_congr hchildren fun hlacks => ?_
        have hpath : (n.view? : Option Path).isNone = true := by
          rw [isNone_path?, hcs]
          exact hlacks
        rw [show cs = n.tree.children by rw [hcs]; rfl, ← has_colonColon]
        refine (Bool.and_eq_false_iff.mp hbare).resolve_left fun hno => ?_
        exact absurd (hpath.symm.trans hno) (by decide)
      by_cases hlist : n.kind = .useTreeList
      · rw [hlist]
        exact Tree.branchWays_congr hchildren
      by_cases hrename : n.kind = .rename
      · rw [hrename]
        rfl
      · rw [Tree.ways.eq_4 _ _ (by simp [htree]) (by simp [hlist]) (by simp [hrename]),
          Tree.ways.eq_4 _ _ (by simp [htree]) (by simp [hlist]) (by simp [hrename])]

end Located

/-! ## In the trees of runs -/

namespace Parse

variable {text : List Char} {p : Parse} {n l q : Located}

open Located Packrat.Language

/-- The end of the text stands under no node but the root. -/
theorem Lossless.kind_ne_eof (h : Lossless text p) (hframed : p.IsFramed)
    (hn : n ∈ p.root.descendants.tail) (hl : l ∈ n.leaves) : l.kind ≠ .eof := by
  obtain ⟨front, hended, hfront⟩ := h.ended
  rw [← show p.root.leaves.map label = p.tree.leaves from map_label_leaves p.root] at hended
  obtain ⟨before, behind, hsplit⟩ := leaves_isInfix (List.mem_of_mem_tail hn)
  rcases List.eq_nil_or_concat behind with rfl | ⟨behind, b, rfl⟩
  · -- the last leaf of a node is significant
    obtain ⟨-, last, -, hlast, -, hsignificant, -⟩ := hframed.inner n hn
    have hend : p.root.leaves.getLast? = some last := by
      rw [← hsplit, List.append_nil]
      exact List.mem_getLast?_append_of_mem_getLast? hlast
    have hlabel := congrArg List.getLast? hended
    rw [List.getLast?_map, hend, List.getLast?_concat] at hlabel
    have hkind : last.kind = .eof := congrArg Prod.fst (Option.some.inj hlabel)
    have hno := (List.mem_filter.mp (List.mem_of_getLast? hsignificant)).2
    rw [hkind] at hno
    cases hno
  · have hmap : (before ++ n.leaves ++ behind).map label = front := by
      rw [← hsplit, List.concat_eq_append, ← List.append_assoc, List.map_append] at hended
      exact (List.append_inj' hended rfl).1
    refine hfront l.label ?_
    rw [← hmap]
    exact List.mem_map_of_mem (List.mem_append_left _ (List.mem_append_right _ hl))

/-- A token that shows is spelled as the table of punctuators has it. -/
theorem Lossless.tree_eq (h : Lossless text p) (hn : n ∈ p.root.descendants) (hl : l ∈ n.shown)
    (htoken : l.tree.isNode = false) {spelling : String} {kind : Kind} (hkind : l.kind = kind)
    (hmark : (kind.isSignificant && kind.isPunctuator) = true)
    (hspell : kind.spelling? = some spelling) : l.tree = .token kind spelling := by
  subst hkind
  obtain ⟨hsignificant, hmark⟩ := Bool.and_eq_true_iff.mp hmark
  have hleaf : l ∈ n.leaves := by
    rw [leaves_of_node (isNode_of_mem_descendants hn)]
    refine List.mem_flatMap.mpr ⟨l, List.mem_of_mem_filter hl, ?_⟩
    rw [leaves_of_token htoken]
    exact List.mem_singleton_self l
  have hmem : l.label ∈ p.tree.leaves := by
    rw [← show p.root.leaves.map label = p.tree.leaves from map_label_leaves p.root]
    exact List.mem_map_of_mem ((leaves_isInfix hn).subset hleaf)
  have htext := h.spelling?_eq hmem hsignificant hmark
  rw [show l.label.1 = l.kind from rfl, hspell] at htext
  obtain ⟨tree, start, parent, before⟩ := l
  cases tree with
  | node => cases htoken
  | token kind word =>
    have hword : label ⟨.token kind word, start, parent, before⟩ = (kind, word) := by
      simp [label, Located.kind, Located.text, Tree.text, Tree.leaves, Tree.leavesBefore,
        String.join_cons, String.join_nil]
    rw [hword] at htext
    rw [Option.some.inj htext]
    rfl

/-- A path has tokens, and they are not empty. -/
theorem Lossless.isPath (h : Lossless text p) (hframed : p.IsFramed)
    (hq : q ∈ p.root.descendants.tail) {cs : List Tree} (hcs : q.tree = .node .path cs) :
    Tree.IsPath cs := by
  have hleaves : (Tree.node .path cs).leaves = q.leaves.map label := by
    rw [map_label_leaves, hcs]
  constructor
  · have hsame : ∀ l ∈ q.leaves.map label, (!l.1.isTrivia) = l.1.isSignificant := by
      intro l hl
      obtain ⟨l, hmem, rfl⟩ := List.mem_map.mp hl
      have hkind : l.label.1 ≠ .eof := h.kind_ne_eof hframed hq hmem
      simp [Kind.isSignificant, hkind]
    rw [Tree.plainText, Tree.significantTexts, hleaves, List.filter_congr hsame]
  · obtain ⟨first, last, -, -, hfirst, -, -⟩ := hframed.inner q hq
    obtain ⟨hmem, hkind⟩ := List.mem_filter.mp (List.mem_of_head? hfirst)
    have hne := h.text_ne_empty ((leaves_isInfix (List.mem_of_mem_tail hq)).subset hmem) hkind
    rw [Tree.plainText, hleaves]
    refine Tree.join_ne_empty ?_ hne
    refine List.mem_map.mpr ⟨first.label, List.mem_filter.mpr ⟨?_, ?_⟩, rfl⟩
    · exact List.mem_map_of_mem hmem
    · exact (Bool.and_eq_true_iff.mp hkind).1

/-- **What stands right below a tree of imports.** -/
theorem IsLaidOut.isImport (h : p.IsLaidOut) (hlossless : Lossless text p) (hframed : p.IsFramed)
    (hn : n ∈ p.root.descendants.tail) (hkind : n.kind = .useTree) :
    Tree.IsImport (Tree.shown n.tree.children) := by
  have hdesc := List.mem_of_mem_tail hn
  have hword := (h.laid n hn _ (by rw [hkind]; rfl)).word
  simp only [inOrder, aToken, aNode, Row.mem_words_alt, Row.mem_words_join, Row.mem_words_opt,
    Row.mem_words_one, mem_words_leaf, mem_words_node, child_mem_iff, KindSet.mem_singleton]
    at hword
  have hpath : ∀ q ∈ n.shown, q.tree.isNode = true → q.kind = .path →
      ∃ cs, q.tree = .node .path cs ∧ Tree.IsPath cs := by
    intro q hq hnode hqkind
    obtain ⟨cs, hcs⟩ := exists_tree_eq hnode hqkind
    have htail := mem_tail_of_mem_nodes hdesc (mem_nodes_of_mem_shown hq hnode)
    exact ⟨cs, hcs, hlossless.isPath hframed htail hcs⟩
  have hcolons : ∀ c ∈ n.shown, c.tree.isNode = false → c.kind = .colonColon →
      c.tree = .token .colonColon "::" :=
    fun c hc htoken hckind => hlossless.tree_eq hdesc hc htoken hckind rfl rfl
  rw [← map_tree_shown]
  rcases hword with ⟨lead, _, hshown, hlead, x, rfl, hx⟩ |
    ⟨_, renames, hshown, ⟨q, rfl, hq, hqkind⟩, hrenames⟩
  · have hlead : Tree.IsLead (lead.map (·.tree)) := by
      rcases hlead with ⟨_, _, rfl, hq, c, rfl, hc, hckind⟩ | rfl
      · have hcolon := hcolons c (by simp [hshown]) hc hckind
        rcases hq with ⟨q, rfl, hq, hqkind⟩ | rfl
        · obtain ⟨cs, hcs, hpath⟩ := hpath q (by simp [hshown]) hq hqkind
          simpa [hcolon, hcs] using .path hpath
        · simpa [hcolon] using .bare
      · exact .nil
    rw [hshown, List.map_append, List.map_singleton]
    rcases hx with ⟨hnode, hxkind⟩ | ⟨htoken, hxkind⟩
    · obtain ⟨branches, hbranches⟩ := exists_tree_eq hnode hxkind
      rw [hbranches]
      exact .group hlead
    · rw [hlossless.tree_eq hdesc (by simp [hshown]) htoken hxkind rfl rfl]
      exact .star hlead
  · obtain ⟨cs, hcs, hpath⟩ := hpath q (by simp [hshown]) hq hqkind
    rcases hrenames with ⟨r, rfl, hr, hrkind⟩ | rfl
    · obtain ⟨rs, hrs⟩ := exists_tree_eq hr hrkind
      simpa [hshown, hcs, hrs] using .renamed hpath
    · simpa [hshown, hcs] using .path hpath

/-- **Trees of imports, and groups of them, flatten to what is on their ways.** -/
theorem IsLaidOut.flattens (h : p.IsLaidOut) (hlossless : Lossless text p)
    (hframed : p.IsFramed) (hn : n ∈ p.root.descendants.tail) :
    (n.kind = .useTree → Tree.Flattens n.tree.imports (n.tree.ways false)) ∧
    (n.kind = .useTreeList →
      Tree.Flattens (Tree.branchImports n.tree.children)
        (Tree.branchWays false n.tree.children)) := by
  induction n using Located.induct with
  | h n ih =>
    have hdesc := List.mem_of_mem_tail hn
    have hchild : ∀ t ∈ n.tree.children, t.isNode = true →
        ∃ c ∈ n.children, c.tree = t ∧ c ∈ p.root.descendants.tail := by
      intro t ht hnode
      rw [← map_tree_children] at ht
      obtain ⟨c, hc, rfl⟩ := List.mem_map.mp ht
      exact ⟨c, hc, rfl, mem_tail_of_mem_nodes hdesc (mem_nodes_iff.mpr ⟨hc, hnode⟩)⟩
    constructor
    · intro hkind
      obtain ⟨cs, hcs⟩ := exists_tree_eq (isNode_of_mem_descendants hdesc) hkind
      have himport := h.isImport hlossless hframed hn hkind
      rw [hcs] at himport hchild ⊢
      refine himport.flattens fun branches hbranches => ?_
      obtain ⟨c, hc, hctree, hctail⟩ := hchild _ hbranches rfl
      have hgroup := (ih c hc hctail).2 (by rw [Located.kind, hctree]; rfl)
      rwa [hctree] at hgroup
    · intro _
      refine Tree.flattens_branches fun t ht hnode htkind => ?_
      obtain ⟨c, hc, rfl, hctail⟩ := hchild t ht hnode
      exact (ih c hc hctail).1 htkind

/-- Trees of imports follow their ways. -/
theorem IsLaidOut.followsWays (h : p.IsLaidOut) (hlossless : Lossless text p)
    (hframed : p.IsFramed) {t : UseTree} (ht : t ∈ p.root.viewsWithin) : t.FollowsWays := by
  have hflattens := (h.flattens hlossless hframed (h.mem_tail_view ht (by simp))).1
    (eq_of_beq t.accepted)
  refine ⟨hflattens.1, fun hbare => ?_⟩
  rw [← ways_eq hbare]
  exact hflattens.1

/-- **Imports are flattened along the ways to their leaves**, in every tree of a file or of another
construct, whatever the options and whatever a table of memos held before. -/
theorem imports_follow_ways (text : List Char) (options : ParseOptions) :
    (∀ p, ofText text options = .ok p →
        ∀ t : UseTree, t ∈ p.root.viewsWithin → t.FollowsWays) ∧
      (∀ s memo p, TokenStream.ofText text = .ok s → (ofStream options s memo).1 = .ok p →
        ∀ t : UseTree, t ∈ p.root.viewsWithin → t.FollowsWays) ∧
      ∀ entry p, ofEntry entry text options = .ok p →
        ∀ t : UseTree, t ∈ p.root.viewsWithin → t.FollowsWays := by
  obtain ⟨-, hlaid, hentry⟩ := parsing_laidOut text options
  have hstream : ∀ s memo p, TokenStream.ofText text = .ok s →
      (ofStream options s memo).1 = .ok p →
      ∀ t : UseTree, t ∈ p.root.viewsWithin → t.FollowsWays := by
    intro s memo p hs h t ht
    have hlossless := run_lossless hs (fun g => isPlain_rule fileRule.name)
      (fun m hg ns stop => kindAt_of_file hg) h
    have hframed := run_framed hs (fun g => isPlain_rule fileRule.name)
      (fun g => fills_rule g _) (fun m hg ns stop => kindAt_of_file hg) h
    exact (hlaid s memo p hs h).followsWays hlossless hframed ht
  refine ⟨fun p h => ?_, hstream, fun entry p h t ht => ?_⟩
  · obtain ⟨s, hs, hrun⟩ := exists_stream h
    exact hstream s {} p hs hrun
  · obtain ⟨s, hs, hrun⟩ := exists_stream h
    have hlossless := run_lossless hs (fun g => isPlain_rule_ended entry.ruleName)
      (fun m hg ns stop => kindAt_of_endsClosed rfl) hrun
    have hframed := run_framed hs (fun g => isPlain_rule_ended entry.ruleName)
      (fun g => fills_rule_ended g _) (fun m hg ns stop => kindAt_of_endsClosed rfl) hrun
    exact (hentry entry p h).followsWays hlossless hframed ht

/-- A star and a renamed path with a `::` before it, in a group. -/
def importsText : List Char := "use a::\x7bb::*,::c as d\x7d;".toList

/-- A path, below a `::` that is bare. -/
def bareText : List Char := "use ::\x7bx\x7d;".toList

/-- What the trees of imports in a tree give, and what is on their ways. -/
def importedPaths (n : Located) : List (List String × List (List String)) :=
  n.viewsWithin.map fun t : UseTree => (t.flatten, t.node.tree.ways true)

/-- A tree has a tree of imports for the first of these. -/
theorem exists_of_importedPaths {paths : List String} {ways : List (List String)}
    (h : (importedPaths n).head? = some (paths, ways)) :
    ∃ t : UseTree, t ∈ n.viewsWithin ∧ t.flatten = paths ∧ t.node.tree.ways true = ways := by
  rw [importedPaths, List.head?_map] at h
  obtain ⟨t, ht, hpaths⟩ := Option.map_eq_some_iff.mp h
  obtain ⟨rfl, rfl⟩ := Prod.mk.inj hpaths
  exact ⟨t, List.mem_of_head? ht, rfl, rfl⟩

/-- The branches are flattened to what is on the ways to them.  Alone, the tree with a bare `::` is
flattened without it. -/
theorem imports_follow_ways_group : ∃ s p q, TokenStream.ofText importsText = .ok s ∧
    ofText importsText unlimited = .ok p ∧ (ofStream unlimited s {}).1 = .ok p ∧
    ofEntry .use bareText unlimited = .ok q ∧
    (∃ t : UseTree, t ∈ p.root.viewsWithin ∧ t.flatten = ["a::b::*", "a::::c"] ∧
      t.node.tree.ways true = [["a", "::", "b", "::", "*"], ["a", "::", "::", "c"]] ∧
      t.FollowsWays) ∧
    ∃ t : UseTree, t ∈ q.root.viewsWithin ∧ t.flatten = ["x"] ∧
      t.node.tree.ways true = [["::", "x"]] ∧ t.FollowsWays := by
  obtain ⟨p, hp, hpaths⟩ := ofText_of_treeWithin importsText 300
    (fun tree => (importedPaths (Located.mk tree 0 none [])).head? =
      some (["a::b::*", "a::::c"], [["a", "::", "b", "::", "*"], ["a", "::", "::", "c"]]))
    (by decide +kernel)
  obtain ⟨q, hq, hlone⟩ := ofEntry_of_treeWithin .use bareText 200
    (fun tree => (importedPaths (Located.mk tree 0 none [])).head? = some (["x"], [["::", "x"]]))
    (by decide +kernel)
  obtain ⟨s, hs, hrun⟩ := exists_stream hp
  obtain ⟨-, hstream, -⟩ := imports_follow_ways importsText unlimited
  obtain ⟨-, -, hentry⟩ := imports_follow_ways bareText unlimited
  obtain ⟨t, ht, htflat, htways⟩ := exists_of_importedPaths (of_decide_eq_true hpaths)
  obtain ⟨u, hu, huflat, huways⟩ := exists_of_importedPaths (of_decide_eq_true hlone)
  exact ⟨s, p, q, hs, hp, hrun, hq, ⟨t, ht, htflat, htways, hstream s {} p hs hrun t ht⟩,
    u, hu, huflat, huways, hentry .use q hq u hu⟩

/-- A star, with a `::` before it. -/
def starText : List Char := "use ::*;".toList

/-- The `::` before the star is on the way to it, and flattening drops it. -/
theorem colons_before_star : ∃ p, ofText starText unlimited = .ok p ∧
    ∃ t : UseTree, t ∈ p.root.viewsWithin ∧ t.flatten = ["*"] ∧
      t.node.tree.ways true = [["::", "*"]] ∧
      t.flatten ≠ (t.node.tree.ways true).map String.join := by
  obtain ⟨p, hp, hpaths⟩ := ofText_of_treeWithin starText 200
    (fun tree => (importedPaths (Located.mk tree 0 none [])).head? = some (["*"], [["::", "*"]]))
    (by decide +kernel)
  obtain ⟨t, ht, hflat, hways⟩ := exists_of_importedPaths (of_decide_eq_true hpaths)
  refine ⟨p, hp, t, ht, hflat, hways, ?_⟩
  rw [hflat, hways]
  decide +kernel

end Parse
end Packrat
