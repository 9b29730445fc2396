/-
# Patterns and types of parameters

The pattern of a parameter is looked up as the first pattern right below it and the type as the first
type, with no regard to the `:` between them.  That tells them apart as long as no node is both
(`Param.TellsApart`), and only calls of macros are.  So one that stands where a pattern does is
found as the type as well, and a type behind the `:` is not found:

| parameter | pattern | type |
| --- | --- | --- |
| `x: T` | `x` | `T` |
| `x: ...` | `x` | |
| `m!(): T`, `m!(): ...` | `m!()` | `m!()` |
| `T`, of a function | | `T` |
| `m!()`, of a function | `m!()` | `m!()` |
| `...` | | |
| `x`, of a closure | `x` | |
| `m!()`, of a closure | `m!()` | `m!()` |
-/

import Packrat.Proofs.Language.Parameter
import Packrat.Proofs.Parse.Computed
import Packrat.Proofs.Parse.Rows
import Packrat.Typed.Item

namespace Packrat

open Peg

/-- Only calls of macros are both patterns and types. -/
theorem Category.eq_macroCall {k : Kind} (hpat : acceptsPat k = true)
    (htype : acceptsType k = true) : k = .macroCall := by
  unfold acceptsPat at hpat
  split at hpat <;> first | rfl | cases htype | cases hpat

/-! ## What the accessors tell -/

namespace Param

/-- The pattern and the type of a parameter are found on their sides of the `:`, and are two nodes.
In a closure, where a pattern can stand alone, no type is found without a `:`. -/
structure TellsApart (ofClosure : Bool) (p : Param) : Prop where
  pat_before : ∀ colon ∈ p.node.tokens, colon.kind = .colon →
    ∃ v, p.pat? = some v ∧ v.node.stop ≤ colon.start
  ty_behind : ∀ colon ∈ p.node.tokens, colon.kind = .colon →
    ∀ t, p.ty? = some t → colon.stop ≤ t.node.start
  bare : ofClosure = true → p.node.has .colon = false → p.ty? = none
  apart : ∀ v t, p.pat? = some v → p.ty? = some t → v.node ≠ t.node

/-- A pattern stands before each `:`, and a parameter is told apart unless its pattern is the call of
a macro, which is then found as the type as well. -/
structure Tells (ofClosure : Bool) (p : Param) : Prop where
  pat_before : ∀ colon ∈ p.node.tokens, colon.kind = .colon →
    ∃ v, p.pat? = some v ∧ v.node.stop ≤ colon.start
  tellsApart_iff : p.TellsApart ofClosure ↔ ∀ v, p.pat? = some v → v.kind ≠ .macroCall
  taken : ∀ v, p.pat? = some v → v.kind = .macroCall → ∃ t, p.ty? = some t ∧ t.node = v.node

variable {p : Param} {ofClosure : Bool}

/-- What is found when the pattern is the call of a macro, and what when it is not. -/
theorem Tells.of_pat
    (hbefore : ∀ colon ∈ p.node.tokens, colon.kind = .colon →
      ∃ v, p.pat? = some v ∧ v.node.stop ≤ colon.start)
    (htaken : ∀ v, p.pat? = some v → v.kind = .macroCall → ∃ t, p.ty? = some t ∧ t.node = v.node)
    (hbehind : (∀ v, p.pat? = some v → v.kind ≠ .macroCall) →
      ∀ colon ∈ p.node.tokens, colon.kind = .colon →
        ∀ t, p.ty? = some t → colon.stop ≤ t.node.start)
    (hbare : (∀ v, p.pat? = some v → v.kind ≠ .macroCall) →
      ofClosure = true → p.node.has .colon = false → p.ty? = none) : p.Tells ofClosure where
  pat_before := hbefore
  taken := htaken
  tellsApart_iff := by
    constructor
    · intro h v hv hkind
      obtain ⟨t, ht, heq⟩ := htaken v hv hkind
      exact h.apart v t hv ht heq.symm
    · intro h
      refine ⟨hbefore, hbehind h, hbare h, fun v t hv _ heq => h v hv ?_⟩
      exact Category.eq_macroCall v.accepted (by rw [View.kind, heq]; exact t.accepted)

end Param

/-! ## What shows in a parameter -/

namespace Located

variable {n c : Located} {accepts : Kind → Bool} {attrs parts : List Located}

/-- The first view is looked up behind the attributes. -/
theorem map_node_view?_of_shown (haccepts : accepts .attr = false)
    (hshown : n.shown = attrs ++ parts) (hattrs : ∀ a ∈ attrs, a.tree.isNode = true ∧ a.kind = .attr) :
    (n.view? : Option (View accepts)).map (·.node) =
      (parts.filter fun c => accepts c.kind && c.tree.isNode).head? := by
  have hnone : (attrs.filter fun c => accepts c.kind && c.tree.isNode) = [] := by
    refine List.filter_eq_nil_iff.mpr fun a ha => ?_
    simp [(hattrs a ha).2, haccepts]
  rw [map_node_view?, nodes_eq_filter_shown, List.filter_filter, hshown, List.filter_append, hnone,
    List.nil_append]

/-- A significant token is no attribute. -/
theorem mem_parts_of_mem_tokens (hshown : n.shown = attrs ++ parts)
    (hattrs : ∀ a ∈ attrs, a.tree.isNode = true ∧ a.kind = .attr) (hc : c ∈ n.tokens)
    (hk : c.kind.isSignificant = true) : c ∈ parts ∧ c.tree.isNode = false := by
  obtain ⟨hchild, htoken⟩ := List.mem_filter.mp hc
  rw [Bool.not_eq_true'] at htoken
  have hmem : c ∈ n.shown := List.mem_filter.mpr ⟨hchild, by rw [hk, Bool.or_true]⟩
  rw [hshown, List.mem_append] at hmem
  refine ⟨hmem.resolve_left fun ha => ?_, htoken⟩
  rw [(hattrs c ha).1] at htoken
  cases htoken

end Located

namespace Param

open Located Packrat.Language

variable {p : Param} {ofClosure : Bool} {attrs rest : List Located} {c v colon : Located}

/-- The call of a macro that comes first is found as the type. -/
theorem exists_ty (hattrs : ∀ a ∈ attrs, a.tree.isNode = true ∧ a.kind = .attr)
    (hshown : p.node.shown = attrs ++ c :: rest) (hc : c.tree.isNode = true)
    (hkind : c.kind = .macroCall) : ∃ t, p.ty? = some t ∧ t.node = c := by
  refine Option.map_eq_some_iff.mp ?_
  rw [View.ty?, map_node_view?_of_shown rfl hshown hattrs,
    List.filter_cons_of_pos (by rw [hc, hkind]; rfl), List.head?_cons]

/-- Another pattern that comes first is passed over. -/
theorem map_node_ty? (hattrs : ∀ a ∈ attrs, a.tree.isNode = true ∧ a.kind = .attr)
    (hshown : p.node.shown = attrs ++ c :: rest) (hpat : Category.acceptsPat c.kind = true)
    (hkind : c.kind ≠ .macroCall) : p.ty?.map (·.node) =
      (rest.filter fun c => Category.acceptsType c.kind && c.tree.isNode).head? := by
  have hno : Category.acceptsType c.kind = false :=
    Bool.eq_false_iff.mpr fun h => hkind (Category.eq_macroCall hpat h)
  rw [View.ty?, map_node_view?_of_shown rfl hshown hattrs,
    List.filter_cons_of_neg (by simp [hno])]

/-- A parameter with a `:`. -/
theorem Tells.of_colon (hattrs : ∀ a ∈ attrs, a.tree.isNode = true ∧ a.kind = .attr)
    (hshown : p.node.shown = attrs ++ v :: colon :: rest)
    (hv : v.tree.isNode = true) (hpat : Category.acceptsPat v.kind = true)
    (hcolon : colon.tree.isNode = false) (hkind : colon.kind = .colon)
    (hrest : ∀ c ∈ rest, c.tree.isNode = false → c.kind ≠ .colon) : p.Tells ofClosure := by
  have hpair := p.node.pairwise_shown
  rw [hshown] at hpair
  obtain ⟨hle, hbehind⟩ := List.pairwise_cons.mp (List.pairwise_append.mp hpair).2.1
  have honly : ∀ c ∈ p.node.tokens, c.kind = .colon → c = colon := by
    intro c hc hckind
    obtain ⟨hmem, htoken⟩ := mem_parts_of_mem_tokens hshown hattrs hc (by rw [hckind]; rfl)
    rcases List.mem_cons.mp hmem with rfl | hmem
    · rw [hv] at htoken
      cases htoken
    · exact (List.mem_cons.mp hmem).resolve_right fun hmem => hrest c hmem htoken hckind
  have hfirst : p.pat?.map (·.node) = some v := by
    rw [View.pat?, map_node_view?_of_shown rfl hshown hattrs,
      List.filter_cons_of_pos (by rw [hpat, hv]; rfl), List.head?_cons]
  obtain ⟨w, hw, rfl⟩ := Option.map_eq_some_iff.mp hfirst
  refine .of_pat (fun c hc hckind => ⟨w, hw, ?_⟩) (fun u hu hukind => ?_)
    (fun hno c hc hckind t ht => ?_) fun _ _ hnone => ?_
  · rw [honly c hc hckind]
    exact hle colon List.mem_cons_self
  · obtain rfl := Option.some.inj (hu.symm.trans hw)
    exact exists_ty hattrs hshown hv hukind
  · have hty := map_node_ty? hattrs hshown hpat (hno w hw)
    rw [ht, List.filter_cons_of_neg (by simp [hcolon])] at hty
    rw [honly c hc hckind]
    exact List.rel_of_pairwise_cons hbehind
      (List.mem_of_mem_filter (List.mem_of_head? hty.symm))
  · have hmem : colon ∈ p.node.tokens := mem_tokens_of_mem_shown (by simp [hshown]) hcolon
    exact absurd hkind (by simpa using List.any_eq_false.mp hnone colon hmem)

/-- A parameter of one piece, and without a `:`. -/
theorem Tells.of_single (hattrs : ∀ a ∈ attrs, a.tree.isNode = true ∧ a.kind = .attr)
    (hshown : p.node.shown = attrs ++ [c]) (hcolon : c.tree.isNode = false → c.kind ≠ .colon)
    (hclosure : ofClosure = true → c.tree.isNode = true ∧ Category.acceptsPat c.kind = true) :
    p.Tells ofClosure := by
  have hnone : ∀ d ∈ p.node.tokens, d.kind ≠ .colon := by
    intro d hd hdkind
    obtain ⟨hmem, htoken⟩ := mem_parts_of_mem_tokens hshown hattrs hd (by rw [hdkind]; rfl)
    obtain rfl := List.mem_singleton.mp hmem
    exact hcolon htoken hdkind
  have hpat : p.pat?.map (·.node) = _ := map_node_view?_of_shown rfl hshown hattrs
  refine .of_pat (fun d hd hdkind => absurd hdkind (hnone d hd)) (fun u hu hukind => ?_)
    (fun _ d hd hdkind => absurd hdkind (hnone d hd)) fun hno hclosed _ => ?_
  · rw [hu] at hpat
    obtain ⟨hmem, haccepts⟩ := List.mem_filter.mp (List.mem_of_head? hpat.symm)
    obtain heq := List.mem_singleton.mp hmem
    subst heq
    exact exists_ty hattrs hshown (Bool.and_eq_true_iff.mp haccepts).2 hukind
  · obtain ⟨hnode, haccepts⟩ := hclosure hclosed
    rw [List.filter_cons_of_pos (by rw [haccepts, hnode]; rfl), List.head?_cons] at hpat
    obtain ⟨w, hw, rfl⟩ := Option.map_eq_some_iff.mp hpat
    exact Option.map_eq_none_iff.mp (map_node_ty? hattrs hshown haccepts (hno w hw))

/-- A parameter of a function. -/
theorem Tells.of_isLaid (h : p.node.IsLaid paramRow) : p.Tells false := by
  have hword := h.word
  simp only [paramRow, inOrder, aPat, aType, aToken, aNode, ofCategory, Row.node,
    Row.mem_words_join, Row.mem_words_alt, Row.mem_words_opt, Row.mem_words_star_one,
    Row.mem_words_one, mem_words_leaf, child_mem_nodes, KindSet.mem_singleton, KindSet.mem_ofList,
    List.mem_filter, Category.accepts] at hword
  obtain ⟨attrs, _, hshown, hattrs,
    ⟨_, _, rfl, ⟨v, rfl, hv, -, hpat⟩, _, _, rfl, ⟨colon, rfl, hcolon, hkind⟩, t, rfl, ht, -⟩ |
    ⟨_, _, rfl, hfront, dots, rfl, hdots, hdotsKind⟩ | ⟨t, rfl, ht, -⟩⟩ := hword
  · exact .of_colon hattrs hshown hv hpat hcolon hkind (by simp [ht])
  · rcases hfront with ⟨_, _, rfl, ⟨v, rfl, hv, -, hpat⟩, colon, rfl, hcolon, hkind⟩ | rfl
    · exact .of_colon hattrs hshown hv hpat hcolon hkind (by simp [hdotsKind])
    · exact .of_single hattrs hshown (by simp [hdotsKind]) fun h => absurd h Bool.false_ne_true
  · exact .of_single hattrs hshown (by simp [ht]) fun h => absurd h Bool.false_ne_true

/-- A parameter of a closure. -/
theorem Tells.of_isLaid_closure (h : p.node.IsLaid closureParamRow) : p.Tells true := by
  have hword := h.word
  simp only [closureParamRow, inOrder, aPat, aType, aToken, aNode, ofCategory, Row.node,
    Row.mem_words_join, Row.mem_words_opt, Row.mem_words_star_one, Row.mem_words_one,
    mem_words_leaf, child_mem_nodes, KindSet.mem_singleton, KindSet.mem_ofList, List.mem_filter,
    Category.accepts] at hword
  obtain ⟨attrs, _, hshown, hattrs, _, _, rfl, ⟨v, rfl, hv, -, hpat⟩,
    ⟨_, _, rfl, ⟨colon, rfl, hcolon, hkind⟩, t, rfl, ht, -⟩ | rfl⟩ := hword
  · exact .of_colon hattrs hshown hv hpat hcolon hkind (by simp [ht])
  · exact .of_single hattrs hshown (by simp [hv]) fun _ => ⟨hv, hpat⟩

end Param

/-! ## In the trees of runs -/

namespace Located

/-- The parameters in the lists right below the nodes of a kind. -/
def paramsUnder (k : Kind) (n : Located) : List Param :=
  n.viewsWithin.flatMap fun v : View (only k) =>
    (v.node.views : List ParamList).flatMap ParamList.params

theorem mem_paramsUnder {k : Kind} {n : Located} {q : Param} : q ∈ n.paramsUnder k ↔
    ∃ v : View (only k), v ∈ n.viewsWithin ∧ ∃ l : ParamList, l ∈ v.node.views ∧ q ∈ l.params := by
  simp only [paramsUnder, List.mem_flatMap]

end Located

namespace Parse

open Located Packrat.Language

/-- The parameters of functions and closures are told apart. -/
structure TellsParams (p : Parse) : Prop where
  ofFn : ∀ q ∈ p.root.paramsUnder .fn, q.Tells false
  ofClosure : ∀ q ∈ p.root.paramsUnder .closureExpr, q.Tells true

variable {text : List Char} {s : TokenStream} {p : Parse}

/-- The parameters in the lists right below the nodes of a kind are laid out as its rules say. -/
theorem run_isLaid_param (hs : TokenStream.ofText text = .ok s) {root : Term}
    (hroot : ∀ g, ∀ t ∈ root.parts, Language.isPlain g t = true)
    (hknows : ∀ g : Grammar, g.Knows root) {options : ParseOptions} {memo : Memo}
    (h : (run root options s memo).1 = .ok p) {k : Kind} (hk : k ≠ .sourceFile) {row : Row}
    (hrow : paramRowUnder k = some row) {q : Param} (hq : q ∈ p.root.paramsUnder k) :
    q.node.IsLaid row := by
  obtain ⟨v, hv, l, hl, hq⟩ := mem_paramsUnder.mp hq
  have hkind : v.node.kind = k := eq_of_beq v.accepted
  obtain ⟨g, hg, hover⟩ := exists_isOf hs hroot hknows h
  obtain ⟨t, hmakes, hof⟩ := hover v.node ((run_laidOut hs hroot hknows h).mem_tail_view hv hk)
  -- the check goes down with the terms, to the list and to the parameter
  have hoffers := hmakes.check (offers_params hg)
  rw [hkind, hrow, Option.all_some] at hoffers
  obtain ⟨u, hlist, hof⟩ := hof.exists_child (node_mem_nodes hl) hoffers
  rw [eq_of_beq l.accepted] at hlist
  obtain ⟨w, hparam, hof⟩ := hof.exists_child (node_mem_nodes hq) hlist
  rw [eq_of_beq q.accepted] at hparam
  exact hof.isLaid hparam

/-- The parameters are told apart in every tree over the tokens of a text. -/
theorem run_tellsParams (hs : TokenStream.ofText text = .ok s) {root : Term}
    (hroot : ∀ g, ∀ t ∈ root.parts, Language.isPlain g t = true)
    (hknows : ∀ g : Grammar, g.Knows root) {options : ParseOptions} {memo : Memo}
    (h : (run root options s memo).1 = .ok p) : p.TellsParams where
  ofFn _ hq := .of_isLaid (run_isLaid_param hs hroot hknows h (by simp) rfl hq)
  ofClosure _ hq := .of_isLaid_closure (run_isLaid_param hs hroot hknows h (by simp) rfl hq)

/-- **The parameters of functions and closures are told apart but for calls of macros**, in every
tree of a file or of another construct, whatever the options and whatever a table of memos held
before. -/
theorem params_told_apart (text : List Char) (options : ParseOptions) :
    (∀ p, ofText text options = .ok p → p.TellsParams) ∧
      (∀ s memo p, TokenStream.ofText text = .ok s → (ofStream options s memo).1 = .ok p →
        p.TellsParams) ∧
      ∀ entry p, ofEntry entry text options = .ok p → p.TellsParams := by
  have hstream : ∀ s memo p, TokenStream.ofText text = .ok s →
      (ofStream options s memo).1 = .ok p → p.TellsParams := fun s memo p hs h =>
    run_tellsParams hs (fun g => isPlain_rule fileRule.name)
      (fun g => g.knows_rule fileRule.name) h
  refine ⟨fun p h => ?_, hstream, fun entry p h => ?_⟩
  · obtain ⟨s, hs, hrun⟩ := exists_stream h
    exact hstream s {} p hs hrun
  · obtain ⟨s, hs, hrun⟩ := exists_stream h
    exact run_tellsParams hs (fun g => isPlain_rule_ended entry.ruleName)
      (fun g => g.knows_rule_ended entry.ruleName) hrun

/-- The kinds of the patterns and the types that are found for some parameters. -/
def foundKinds (ps : List Param) : List (Option Kind × Option Kind) :=
  ps.map fun q => (q.pat?.map (·.kind), q.ty?.map (·.kind))

/-- A parameter for the first of these. -/
theorem exists_of_foundKinds {ps : List Param} {found : Option Kind × Option Kind}
    (h : foundKinds ps = [found]) : ∃ q ∈ ps, (q.pat?.map (·.kind), q.ty?.map (·.kind)) = found := by
  obtain ⟨q, rfl, hfound⟩ := List.map_eq_singleton_iff.mp h
  exact ⟨q, List.mem_singleton_self q, hfound⟩

/-- A function and a closure with a parameter each. -/
def paramsText : List Char := "fn f(a:b)\x7b|c|c\x7d".toList

/-- A closure with the call of a macro as its parameter. -/
def calledParamText : List Char := "|m!()|c".toList

/-- A pattern of another kind is told apart from the type, be there one or none.  Alone, the call of
a macro is found twice. -/
theorem params_told_apart_closure : ∃ s p q, TokenStream.ofText paramsText = .ok s ∧
    ofText paramsText unlimited = .ok p ∧ (ofStream unlimited s {}).1 = .ok p ∧
    ofEntry .expression calledParamText unlimited = .ok q ∧
    foundKinds (p.root.paramsUnder .fn) = [(some .identPat, some .pathType)] ∧
    foundKinds (p.root.paramsUnder .closureExpr) = [(some .identPat, none)] ∧
    foundKinds (q.root.paramsUnder .closureExpr) = [(some .macroCall, some .macroCall)] ∧
    (∃ u ∈ p.root.paramsUnder .fn, u.TellsApart false) ∧
    (∃ u ∈ p.root.paramsUnder .closureExpr, u.TellsApart true) ∧
    ∃ u ∈ q.root.paramsUnder .closureExpr, ¬u.TellsApart true := by
  obtain ⟨p, hp, hfound⟩ := ofText_of_treeWithin paramsText 300
    (fun tree => foundKinds ((Located.mk tree 0 none []).paramsUnder .fn) =
        [(some .identPat, some .pathType)] ∧
      foundKinds ((Located.mk tree 0 none []).paramsUnder .closureExpr) = [(some .identPat, none)])
    (by decide +kernel)
  obtain ⟨q, hq, hmacro⟩ := ofEntry_of_treeWithin .expression calledParamText 200
    (fun tree => foundKinds ((Located.mk tree 0 none []).paramsUnder .closureExpr) =
      [(some .macroCall, some .macroCall)]) (by decide +kernel)
  obtain ⟨s, hs, hrun⟩ := exists_stream hp
  obtain ⟨hfn, hclosure⟩ : foundKinds (p.root.paramsUnder .fn) =
      [(some .identPat, some .pathType)] ∧
    foundKinds (p.root.paramsUnder .closureExpr) = [(some .identPat, none)] :=
    of_decide_eq_true hfound
  have hmacro : foundKinds (q.root.paramsUnder .closureExpr) =
      [(some .macroCall, some .macroCall)] := of_decide_eq_true hmacro
  obtain ⟨-, hstream, -⟩ := params_told_apart paramsText unlimited
  obtain ⟨-, -, hentry⟩ := params_told_apart calledParamText unlimited
  obtain ⟨u, hu, hukinds⟩ := exists_of_foundKinds hfn
  obtain ⟨v, hv, hvkinds⟩ := exists_of_foundKinds hclosure
  obtain ⟨w, hw, hwkinds⟩ := exists_of_foundKinds hmacro
  have hp' := hstream s {} p hs hrun
  have hq' := hentry .expression q hq
  refine ⟨s, p, q, hs, hp, hrun, hq, hfn, hclosure, hmacro, ⟨u, hu, ?_⟩, ⟨v, hv, ?_⟩, w, hw, ?_⟩
  · refine (hp'.ofFn u hu).tellsApart_iff.mpr fun x hx hkind => ?_
    simp [hx, hkind] at hukinds
  · refine (hp'.ofClosure v hv).tellsApart_iff.mpr fun x hx hkind => ?_
    simp [hx, hkind] at hvkinds
  · intro hapart
    obtain ⟨x, hx, hkind⟩ := Option.map_eq_some_iff.mp (Prod.mk.inj hwkinds).1
    exact (hq'.ofClosure w hw).tellsApart_iff.mp hapart x hx hkind

/-- A function with the call of a macro where the pattern of its parameter stands. -/
def macroPatText : List Char := "fn f(m!():T)\x7b\x7d".toList

/-- The call of a macro before the `:` is found as the type. -/
theorem type_before_colon : ∃ p, ofText macroPatText unlimited = .ok p ∧
    ∃ u ∈ p.root.paramsUnder .fn, ∃ colon ∈ u.node.tokens, ∃ t, colon.kind = .colon ∧
      u.ty? = some t ∧ t.node.stop ≤ colon.start ∧ ¬u.TellsApart false := by
  obtain ⟨p, hp, hfound⟩ := ofText_of_treeWithin macroPatText 200
    (fun tree => ((Located.mk tree 0 none []).paramsUnder .fn).any fun u =>
      u.node.tokens.any fun colon => colon.kind = .colon ∧ u.ty?.any fun t =>
        t.node.start < t.node.stop ∧ t.node.stop ≤ colon.start) (by decide +kernel)
  obtain ⟨u, hu, hfound⟩ := List.any_eq_true.mp hfound
  obtain ⟨colon, hcolon, hfound⟩ := List.any_eq_true.mp hfound
  obtain ⟨hkind, hfound⟩ := of_decide_eq_true hfound
  obtain ⟨t, ht, hfound⟩ := (Option.any_eq_true ..).mp hfound
  obtain ⟨hlt, hle⟩ := of_decide_eq_true hfound
  refine ⟨p, hp, u, hu, colon, hcolon, t, hkind, ht, hle, fun hapart => ?_⟩
  have hbehind := hapart.ty_behind colon hcolon hkind t ht
  have hcolonStop := colon.start_le_stop
  omega

end Parse
end Packrat
