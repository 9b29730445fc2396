/-
# Nodes begin and end on tokens

In every tree that parsing gives, a node below the root has significant tokens, begins where its
first one does and ends where its last one does (`Parse.IsFramed`).  No rule of the language puts a
node around nothing (`Language.isFilling_grammar`), every leaf that is matched is of a significant
kind, and the trivia before a node's first token stand before the node.

The first and the last significant token of a node, root included, are the ends of the list of its
significant tokens, or none if that is empty.  So are those that a walk finds from its first token
on over all tokens of the tree, until one starts at or behind its end, and from its last token back,
until one stops at or before its start.
-/

import Packrat.Proofs.Parse.Lossless
import Packrat.Proofs.Token.Position
import Packrat.Proofs.Tree.Located

namespace Packrat

open Peg

/-! ## What is matched -/

namespace Language

/-- A check of a grammar for nodes around nothing. -/
def fills (g : Grammar) : Bool :=
  g.rules.toList.all fun rule => rule.body.parts.all g.isFilling &&
    (rule.kind.isNone || !rule.body.nullable g.isNullable)

/-- **No rule of the language puts a node around nothing.** -/
theorem isFilling_grammar {g : Grammar} (hg : grammar = .ok g) : g.IsFilling := by
  have hall : fills g = true := by
    refine of_coded ?_ hg
    unfold fills Grammar.isFilling
    simp only [Grammar.isNullable_eq]
    decide +kernel
  intro id rule hrule
  have hmem : rule ∈ g.rules.toList := Array.mem_toList_iff.mpr (Array.mem_of_getElem? hrule)
  obtain ⟨hparts, hbody⟩ := Bool.and_eq_true_iff.mp (List.all_eq_true.mp hall rule hmem)
  refine ⟨List.all_eq_true.mp hparts, fun hkind => ?_⟩
  cases hnone : rule.kind with
  | none => exact absurd hnone hkind
  | some kind => simpa [hnone] using hbody

/-- The term for a rule by its name puts no node around anything. -/
theorem fills_rule (g : Grammar) (name : String) : g.Fills (.rule name) := Term.every_rule rfl

/-- Nor does the term for a rule and the end of the text behind it. -/
theorem fills_rule_ended (g : Grammar) (name : String) : g.Fills (.seq [.rule name, .ended]) :=
  Term.every_rule_ended rfl rfl rfl

end Language

namespace Peg.Machine

variable {text : List Char} {s : TokenStream} {m : Machine} {pos stop : Pos} {ls : List Match}

/-- What is at a place is significant, unless the text has ended there. -/
theorem isSignificant_kindAt (htokens : m.tokens = s.symbols)
    (hs : TokenStream.ofText text = .ok s) (hplace : IsCutPlace s pos)
    (hkind : m.kindAt pos ≠ .eof) : (m.kindAt pos).isSignificant = true := by
  by_cases hsplit : pos.isSplit = true
  · have hpunct := (remnant_split htokens hplace hsplit).1
    exact Kind.isSignificant_of_spelling? (Kind.spelling?_of_mem_punctuators hpunct)
  · obtain ⟨t, ht⟩ := exists_token htokens hkind
    have hwhole : (m.remnant pos t).kind = t.kind := by rw [remnant, if_neg hsplit]
    rw [(remnant_eq htokens ht).1] at hwhole
    obtain ⟨ts, eof, htoks, heof, -, hscanned⟩ := TokenStream.ofText_tokens hs
    have hmem : t ∈ ts ++ [eof] := by
      rw [← htoks]
      exact Array.mem_toList_iff.mpr (Array.mem_of_getElem? ht)
    rw [hwhole] at hkind ⊢
    rcases List.mem_append.mp hmem with hmem | hmem
    · exact Kind.isSignificant_iff.mpr ⟨(hscanned t hmem).1, hkind⟩
    · obtain rfl := List.mem_singleton.mp hmem
      exact absurd heof hkind

/-- The leaves of matches become significant leaves. -/
theorem Tiles.areShown (htokens : m.tokens = s.symbols) (hs : TokenStream.ofText text = .ok s)
    (h : m.Tiles (· ∈ Language.cutKinds) pos ls stop) (hplace : IsCutPlace s pos) :
    Tree.AreShown s.tokens ls := by
  have hinside := h.isInside htokens
  refine fun l hl => ⟨hinside l hl, ?_⟩
  clear hinside
  induction h with
  | nil => cases hl
  | leaf hkind _ ih =>
    rcases List.mem_append.mp hl with hl | hl
    · obtain rfl := List.mem_singleton.mp hl
      exact isSignificant_kindAt htokens hs hplace hkind
    · exact ih (isCutPlace_index _) hl
  | piece hcuts hspell hbegins _ ih =>
    rcases List.mem_append.mp hl with hl | hl
    · obtain rfl := List.mem_singleton.mp hl
      exact Kind.isSignificant_of_spelling? hspell
    · obtain ⟨t, ht⟩ := exists_token_of_begins htokens hbegins
      obtain ⟨-, hcut⟩ := mem_cuttable_of_begins htokens hs hplace ht hcuts hspell hbegins
      exact ih (rendered_pieceAt htokens hspell ht hcut hbegins).1 hl

end Peg.Machine

/-! ## Trees -/

/-- What carries a token is not empty, if only the end of the text is. -/
theorem Token.Carries.ne_empty {t : Token} {ls : List (Kind × String)} (h : t.Carries ls)
    (ht : t.kind ≠ .eof → t.text ≠ "") : ∀ l ∈ ls, l.2 ≠ "" := by
  intro l hl
  cases h with
  | whole hkind =>
    obtain rfl := List.mem_singleton.mp hl
    exact ht hkind
  | pieces _ _ hspell _ => exact Kind.spelling_ne_empty (hspell l hl)

/-- Only the end of a text is empty. -/
theorem TokenStream.text_ne_empty {text : List Char} {s : TokenStream} (hs : ofText text = .ok s)
    {t : Token} (ht : t ∈ s.tokens) (hkind : t.kind ≠ .eof) : t.text ≠ "" := by
  obtain ⟨-, -, -, -, -, ⟨hend, -⟩ | ⟨-, hne⟩⟩ := exists_around hs ht
  · exact absurd hend hkind
  · intro hempty
    exact hne (by rw [hempty]; rfl)

namespace Parse

open Located

variable {text : List Char} {s : TokenStream} {p : Parse}

/-- Significant tokens of a tree that has lost nothing are not empty. -/
theorem Lossless.ne_empty (h : Lossless text p) {l : Kind × String} (hl : l ∈ p.tree.leaves)
    (hkind : l.1.isSignificant = true) : l.2 ≠ "" := by
  obtain ⟨ts, eof, groups, htoks, -, hcarries, hleaves⟩ := h.tokens
  have hts : ∀ t ∈ ts, t.kind ≠ .eof → t.text ≠ "" := by
    intro t ht
    refine TokenStream.text_ne_empty h.stream ?_
    rw [← Array.mem_toList_iff, htoks]
    exact List.mem_append_left _ ht
  have hgroups : ∀ group ∈ groups, ∀ l ∈ group, l.2 ≠ "" := by
    clear htoks hleaves
    induction hcarries with
    | nil => simp
    | cons hcarry _ ih =>
      refine List.forall_mem_cons.mpr ⟨hcarry.ne_empty (hts _ List.mem_cons_self), ?_⟩
      exact ih fun t ht => hts t (List.mem_cons_of_mem _ ht)
  have hmem : l ∈ groups.flatten := by
    rw [← hleaves]
    exact List.mem_filter.mpr ⟨hl, hkind⟩
  obtain ⟨group, hgroup, hl⟩ := List.mem_flatten.mp hmem
  exact hgroups group hgroup l hl

/-- Nor are they at their places. -/
theorem Lossless.text_ne_empty (h : Lossless text p) {l : Located} (hl : l ∈ p.root.leaves)
    (hkind : l.kind.isSignificant = true) : l.text ≠ "" := by
  have hmem : l.label ∈ p.tree.leaves := by
    rw [← show p.root.leaves.map label = p.tree.leaves from map_label_leaves p.root]
    exact List.mem_map_of_mem hl
  exact h.ne_empty hmem hkind

/-- Significant leaves of a tree that has lost nothing cover bytes. -/
theorem Lossless.areWide (h : Lossless text p) : AreWide p.root.leaves := by
  intro l hl hkind
  have hne := h.text_ne_empty hl hkind
  have hsize : l.text.utf8ByteSize ≠ 0 := fun hzero =>
    hne (String.utf8ByteSize_eq_zero_iff.mp hzero)
  rw [stop_of_leaf (isNode_of_mem_leaves hl)]
  omega

/-- Nodes begin and end on significant tokens, which are found from both sides. -/
structure IsFramed (p : Parse) : Prop where
  /-- A node other than the root covers what stands from its first up to its last significant
  token; these are also its first and its last token of any kind. -/
  inner : ∀ n ∈ p.root.descendants.tail, ∃ first last,
    n.leaves.head? = some first ∧ n.leaves.getLast? = some last ∧
    n.significantTokens.head? = some first ∧ n.significantTokens.getLast? = some last ∧
    n.range = ⟨first.start, last.stop⟩
  /-- The first and the last significant token of any node are the ends of the list of them. -/
  ends : ∀ n ∈ p.root.descendants,
    n.firstSignificant?.map spot = n.significantTokens.head?.map spot ∧
    n.lastSignificant?.map spot = n.significantTokens.getLast?.map spot
  /-- So are those that are found by walking over the tokens of the tree. -/
  walks : ∀ n ∈ p.root.descendants, n.leaves ≠ [] ∧ n.leaves <:+: p.root.leaves ∧
    ∀ front behind, p.root.leaves = front ++ n.leaves ++ behind →
      walk? (fun next => n.stop ≤ next.start) (n.leaves ++ behind) =
        n.significantTokens.head? ∧
      walk? (fun next => next.stop ≤ n.start) (front ++ n.leaves).reverse =
        n.significantTokens.getLast?

/-- A tree that has lost nothing is framed, if the trees under its root are. -/
theorem isFramed_of_lossless (h : Lossless text p) (hframed : ∀ t ∈ p.tree.children, t.Framed) :
    p.IsFramed := by
  have hinner : ∀ n ∈ p.root.descendants.tail, Tree.AreFramed n.tree.leaves := by
    intro n hn
    obtain ⟨hnode, hn⟩ := framed_of_mem_tail hn hframed
    exact hn.areFramed hnode
  have hroot : p.root.leaves ≠ [] := by
    obtain ⟨front, hleaves, -⟩ := h.ended
    rw [← show p.root.leaves.map label = p.tree.leaves from map_label_leaves p.root] at hleaves
    intro hnil
    rw [hnil] at hleaves
    exact List.append_ne_nil_of_right_ne_nil _ (List.cons_ne_nil _ _) hleaves.symm
  have hne : ∀ n ∈ p.root.descendants, n.leaves ≠ [] := by
    intro n hn
    rcases eq_or_mem_tail hn with rfl | hn
    · exact hroot
    · obtain ⟨first, -, hfirst, -⟩ := exists_ends (hinner n hn)
      intro hnil
      rw [hnil] at hfirst
      cases hfirst
  refine ⟨fun n hn => exists_ends (hinner n hn), fun n _ =>
    ⟨firstSignificant?_spot n, lastSignificant?_spot n⟩, fun n hn => ?_⟩
  have hin := leaves_isInfix hn
  have hwide : AreWide n.leaves := fun l hl => h.areWide l (hin.subset hl)
  refine ⟨hne n hn, hin, fun front behind hsplit => ?_⟩
  have hrun := run_of_leaves p.root
  rw [hsplit] at hrun
  obtain ⟨hfront, hbehind⟩ := run_around (hne n hn) hrun
  exact ⟨walk?_forth (hne n hn) hwide hbehind, walk?_back (hne n hn) hwide hfront⟩

/-- **A tree over the tokens of a text is framed**, if its root is matched up to the end of the
text. -/
theorem run_framed (hs : TokenStream.ofText text = .ok s) {root : Term}
    (hroot : ∀ g, ∀ t ∈ root.parts, Language.isPlain g t = true)
    (hfills : ∀ g : Grammar, g.Fills root)
    (hclosed : ∀ m : Machine, Language.grammar = .ok m.grammar → ∀ ns stop,
      Parses m {} (.term root) {} (some (ns, stop)) → m.kindAt stop = .eof)
    {options : ParseOptions} {memo : Memo} (h : (run root options s memo).1 = .ok p) :
    p.IsFramed := by
  refine isFramed_of_lossless (run_lossless hs hroot hclosed h) ?_
  obtain ⟨m, ns, stop, stats, hg, htokens, hparses, htiles, rfl⟩ := exists_build hs hroot h
  have hfilled := hparses.fills (Language.isFilling_grammar hg) (hfills _) ns stop rfl
  exact Tree.framed_build .sourceFile hfilled.1
    (htiles.areShown htokens hs (Machine.isCutPlace_index 0))

/-- **Nodes begin and end on significant tokens**, in every tree of a file or of another construct,
whatever the options and whatever a table of memos held before. -/
theorem parsing_framed (text : List Char) (options : ParseOptions) :
    (∀ p, ofText text options = .ok p → p.IsFramed) ∧
      (∀ s memo p, TokenStream.ofText text = .ok s → (ofStream options s memo).1 = .ok p →
        p.IsFramed) ∧
      ∀ entry p, ofEntry entry text options = .ok p → p.IsFramed := by
  have hstream : ∀ s memo p, TokenStream.ofText text = .ok s →
      (ofStream options s memo).1 = .ok p → p.IsFramed := by
    intro s memo p hs h
    exact run_framed hs (fun g => Language.isPlain_rule Language.fileRule.name)
      (fun g => Language.fills_rule g _) (fun m hg ns stop => Language.kindAt_of_file hg) h
  refine ⟨fun p h => ?_, hstream, fun entry p h => ?_⟩
  · obtain ⟨s, hs, hrun⟩ := exists_stream h
    exact hstream s {} p hs hrun
  · obtain ⟨s, hs, hrun⟩ := exists_stream h
    exact run_framed hs (fun g => Language.isPlain_rule_ended entry.ruleName)
      (fun g => Language.fills_rule_ended g _)
      (fun m hg ns stop => Language.kindAt_of_endsClosed rfl) hrun

/-- A type alias between trivia, and with a space before two brackets that are one token. -/
def commentedText : List Char := " type A=B<C<u8 >>; //".toList

/-- A text without tokens. -/
def commentText : List Char := "// ".toList

/-- Either has a tree, and the alias also has one alone.  The inner list of generic arguments ends
with the first of the two brackets, and the text without tokens has no significant ones. -/
theorem parsing_framed_commented : ∃ s p q r, TokenStream.ofText commentedText = .ok s ∧
    ofText commentedText unlimited = .ok p ∧ (ofStream unlimited s {}).1 = .ok p ∧
    ofEntry .typeAlias commentedText unlimited = .ok q ∧ ofText commentText unlimited = .ok r ∧
    (p.root.descendants.filter (·.kind = .genericArgList)).map (·.range) =
      [⟨9, 17⟩, ⟨11, 16⟩] ∧
    r.root.significantTokens = [] ∧ p.IsFramed ∧ q.IsFramed ∧ r.IsFramed := by
  obtain ⟨p, hp, hranges⟩ := ofText_of_treeWithin commentedText 200
    (fun tree => ((Located.mk tree 0 none []).descendants.filter (·.kind = .genericArgList)).map
      (·.range) = [⟨9, 17⟩, ⟨11, 16⟩]) (by decide +kernel)
  obtain ⟨q, hq, -⟩ :=
    ofEntry_of_treeWithin .typeAlias commentedText 200 (fun _ => true) (by decide +kernel)
  obtain ⟨r, hr, hnone⟩ := ofText_of_treeWithin commentText 200
    (fun tree => (Located.mk tree 0 none []).significantTokens.isEmpty) (by decide +kernel)
  obtain ⟨s, hs, hrun⟩ := exists_stream hp
  obtain ⟨-, hstream, hentry⟩ := parsing_framed commentedText unlimited
  exact ⟨s, p, q, r, hs, hp, hrun, hq, hr, of_decide_eq_true hranges,
    List.isEmpty_iff.mp hnone, hstream s {} p hs hrun, hentry .typeAlias q hq,
    (parsing_framed commentText unlimited).1 r hr⟩

end Parse
end Packrat
