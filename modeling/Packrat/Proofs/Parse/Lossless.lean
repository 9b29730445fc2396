/-
# Parsing loses nothing

The tree of a text has the text.  Its significant leaves are the tokens of the text, whole or
in pieces, and it ends with the end of the text, which is empty (`Parse.Lossless`).

What a run answers is what the plain meaning of its root says, and that covers the tokens
that are in front of the place where it stops.  The root is matched up to the end of the
text, and the end of the text is not matched by anything else, so these are all tokens.
-/

import Packrat.Proofs.Parse.Computed
import Packrat.Proofs.Parse.Covering

namespace Packrat

open Peg

/-! ## Up to the end of the text -/

namespace Language

variable {m : Machine} {f : Flags} {pos stop : Pos} {ns : List Match}

theorem kindAt_of_ended (h : Parses m f (.term .ended) pos (some (ns, stop))) :
    m.kindAt stop = .eof := by
  generalize ha : some (ns, stop) = a at h
  cases h with
  | terminal =>
    simp only [Machine.read?] at ha
    split at ha
    · next hkind =>
      cases ha
      exact hkind
    · cases ha

/-- What ends with the end of the text stops there. -/
theorem kindAt_of_endsClosed {t : Term} (ht : endsClosed t = true)
    (h : Parses m f (.term t) pos (some (ns, stop))) : m.kindAt stop = .eof := by
  unfold endsClosed at ht
  split at ht
  · split at ht
    · next hlast =>
      obtain ⟨front, mid, last, -, hended⟩ := h.exists_last hlast
      exact kindAt_of_ended hended
    · cases ht
  · cases ht

/-- A file ends with the end of the text. -/
theorem kindAt_of_file (hg : grammar = .ok m.grammar)
    (h : Parses m f (.term (.rule fileRule.name)) pos (some (ns, stop))) :
    m.kindAt stop = .eof := by
  obtain ⟨-, hfile⟩ := Bool.and_eq_true_iff.mp (isSound_of_eq hg)
  obtain ⟨id, hid, hfile⟩ := (Option.any_eq_true ..).mp hfile
  obtain ⟨rule, hrule, hclosed⟩ := (Option.any_eq_true ..).mp hfile
  obtain ⟨id', rule', ms, hid', hrule', -, hbody⟩ := h.exists_body
  obtain rfl := Option.some.inj (hid.symm.trans hid')
  obtain rfl := Option.some.inj (hrule.symm.trans hrule')
  exact kindAt_of_endsClosed hclosed hbody

end Language

/-! ## Whole streams -/

namespace Peg.Machine

variable {text : List Char} {s : TokenStream} {m : Machine} {pos stop : Pos} {ls ns : List Match}

/-- The leaves are of tokens of the stream. -/
theorem Tiles.isInside (htokens : m.tokens = s.symbols) {cuts : Kind → Prop}
    (h : m.Tiles cuts pos ls stop) : ∀ l ∈ ls, Tree.IsInside s.tokens l := by
  induction h with
  | nil => simp
  | leaf hkind _ ih =>
    obtain ⟨t, ht⟩ := exists_token htokens hkind
    rintro l (_ | ⟨_, hl⟩)
    · exact (Array.getElem?_eq_some_iff.mp ht).1
    · exact ih l hl
  | piece _ _ hbegins _ ih =>
    obtain ⟨t, ht⟩ := exists_token_of_begins htokens hbegins
    rintro l (_ | ⟨_, hl⟩)
    · exact (Array.getElem?_eq_some_iff.mp ht).1
    · exact ih l hl

/-- What is left begins with a token of the kind at the place. -/
theorem kind_of_leftAt (htokens : m.tokens = s.symbols) {t : Token} {ts : List Token}
    (hleft : m.leftAt s pos = t :: ts) : t.kind = m.kindAt pos := by
  unfold leftAt at hleft
  cases ht : s.tokens[pos.index]? with
  | none =>
    rw [ht] at hleft
    cases hleft
  | some t' =>
    rw [ht] at hleft
    obtain ⟨rfl, -⟩ := List.cons_eq_cons.mp hleft
    exact (remnant_eq htokens ht).1

/-- What is read up to the end of the text is all of a stream but the end of the text. -/
theorem read_eq {ts read rest : List Token} {eof : Token} (heof : eof.kind = .eof)
    (hts : ∀ t ∈ ts, t.kind ≠ .eof) (hread : ∀ t ∈ read, t.kind ≠ .eof)
    (hrest : ∀ t others, rest = t :: others → t.kind = .eof)
    (h : ts ++ [eof] = read ++ rest) : read = ts ∧ rest = [eof] := by
  rcases List.append_eq_append_iff.mp h with ⟨more, hmore, hlast⟩ | ⟨less, hless, hlast⟩
  · -- no more than the tokens has been read: it would be the end of the text
    cases more with
    | nil => exact ⟨by rw [hmore, List.append_nil], hlast.symm⟩
    | cons e more =>
      obtain ⟨rfl, -⟩ := List.cons_eq_cons.mp hlast
      have hmem : eof ∈ read := by simp [hmore]
      exact absurd heof (hread eof hmem)
  · -- nor less: what is left begins with the end of the text
    cases less with
    | nil => exact ⟨by rw [hless, List.append_nil], hlast⟩
    | cons e less =>
      have hmem : e ∈ ts := by simp [hless]
      exact absurd (hrest e _ hlast) (hts e hmem)

/-- **What is matched up to the end of the text covers all tokens** but the last, which is
the end of the text. -/
theorem exists_covers (hs : TokenStream.ofText text = .ok s) (htokens : m.tokens = s.symbols)
    (h : m.Tiles (· ∈ Language.cutKinds) {} (Match.leavesAll ns) stop)
    (hstop : m.kindAt stop = .eof) :
    ∃ ts eof, s.tokens.toList = ts ++ [eof] ∧ eof.kind = .eof ∧ eof.text = "" ∧
      (∀ t ∈ ts, TriviaKind.ofKind? t.kind = none) ∧
      Token.Covers ts (Tree.rendered s.tokens 0 ns).1 ∧
      (Tree.rendered s.tokens 0 ns).2 = ts.length := by
  obtain ⟨ts, eof, htoks, heof, hempty, hscanned⟩ := TokenStream.ofText_tokens hs
  obtain ⟨hplace, hcovered⟩ := h.isCovered htokens hs (isCutPlace_index 0)
  -- a place inside a token is at a punctuator, so the run has not stopped inside one
  have hwhole : stop.isSplit = false := by
    by_contra hsplit
    have hpunct := (remnant_split htokens hplace (by simpa using hsplit)).1
    rw [hstop] at hpunct
    have hsignificant := Kind.isSignificant_of_spelling? (Kind.spelling?_of_mem_punctuators hpunct)
    cases hsignificant
  obtain ⟨read, hleft, -, hcovers, hdone⟩ := hcovered hwhole
  rw [leftAt_index, List.drop_zero, htoks] at hleft
  obtain ⟨rfl, hlast⟩ := read_eq heof (fun t ht => (hscanned t ht).2.kind_ne_eof)
    hcovers.token_ne_eof (fun t others heq => by rw [kind_of_leftAt htokens heq, hstop]) hleft
  have hindex : stop.index = read.length := by
    have hoffset : stop.offset = 0 := by simpa [Pos.isSplit] using hwhole
    have hstop' : stop = ⟨stop.index, 0⟩ := by rw [← hoffset]
    rw [hstop', leftAt_index] at hlast
    have hlen := congrArg List.length hlast
    rw [List.length_drop, htoks, List.length_append, List.length_singleton] at hlen
    omega
  rw [hindex] at hdone
  rw [Tree.ofMatches_leaves ns 0 (h.isInside htokens)]
  exact ⟨read, eof, htoks, heof, hempty, fun t ht => (hscanned t ht).1, hcovers, hdone⟩

end Peg.Machine

/-- The leaves of the tree of a stream are those of the matches, and behind them what is left:
the trivia of the end of the text, and the end of the text. -/
theorem Tree.leaves_build {s : TokenStream} {ts : List Token} {eof : Token}
    (htoks : s.tokens.toList = ts ++ [eof]) (root : Kind) {ns : List Match}
    (hdone : (rendered s.tokens 0 ns).2 = ts.length) :
    (build s root ns).leaves =
      (rendered s.tokens 0 ns).1 ++ eof.triviaLeaves ++ [(.eof, eof.text)] := by
  have hsize : s.tokens.size = ts.length + 1 := by
    rw [← Array.length_toList, htoks, List.length_append, List.length_singleton]
  have hget : s.tokens[ts.length]? = some eof := by
    rw [← Array.getElem?_toList, htoks]
    simp
  have hback : s.tokens.back? = some eof := by
    rw [Array.back?_eq_getElem?, hsize]
    exact hget
  have hlast : (triviaUpTo s.tokens (ofMatches s.tokens 0 ns).2 (s.tokens.size - 1)).1 =
      eof.trivia.map ofTrivia := by
    rw [hsize, Nat.add_sub_cancel]
    have hself := triviaUpTo_self hget
    simp only [rendered] at hdone
    rw [hdone, hself]
  simp only [build, hback, hlast, leaves_node, leavesAll_append, leavesAll_map_ofTrivia]
  rfl

namespace Parse

/-- What the parse of a text has kept of it.

* The text of the tree is the text.
* The tokens of the text are the significant leaves of the tree, each whole or in pieces, and
  the end of the text.
* The tree ends with the end of the text, which is empty and nowhere else. -/
structure Lossless (text : List Char) (p : Parse) : Prop where
  stream : TokenStream.ofText text = .ok p.stream
  text_eq : p.text = String.ofList text
  tokens : ∃ ts eof groups, p.stream.tokens.toList = ts ++ [eof] ∧ eof.kind = .eof ∧
    List.Forall₂ Token.Carries ts groups ∧
    p.tree.leaves.filter (·.1.isSignificant) = groups.flatten
  ended : ∃ front, p.tree.leaves = front ++ [(.eof, "")] ∧ ∀ l ∈ front, l.1 ≠ .eof

variable {text : List Char} {s : TokenStream}

/-- The tree of matches that cover all tokens has lost nothing. -/
theorem lossless_build (hs : TokenStream.ofText text = .ok s) {ts : List Token} {eof : Token}
    (htoks : s.tokens.toList = ts ++ [eof]) (heof : eof.kind = .eof) (hempty : eof.text = "")
    (hnone : ∀ t ∈ ts, TriviaKind.ofKind? t.kind = none) {ns : List Match}
    (hcovers : Token.Covers ts (Tree.rendered s.tokens 0 ns).1)
    (hdone : (Tree.rendered s.tokens 0 ns).2 = ts.length) (root : Kind) (stats : Stats) :
    Lossless text ⟨Tree.build s root ns, s, stats⟩ := by
  have hleaves := Tree.leaves_build htoks root hdone
  rw [hempty] at hleaves
  refine ⟨hs, ?_, ?_, ?_⟩
  · rw [← TokenStream.text_ofText hs, Parse.text, Tree.text, hleaves, TokenStream.text, htoks]
    simp [String.join_append, hcovers.join_eq, Token.fullText, hempty]
  · obtain ⟨groups, hall, hfilter⟩ := hcovers.exists_groups hnone
    refine ⟨ts, eof, groups, htoks, heof, hall, ?_⟩
    have hlast : Kind.eof.isSignificant = false := rfl
    rw [hleaves, List.filter_append, List.filter_append, hfilter, Token.filter_triviaLeaves]
    simp [hlast]
  · refine ⟨_, hleaves, fun l hl => ?_⟩
    rcases List.mem_append.mp hl with hl | hl
    · exact hcovers.kind_ne_eof l hl
    · exact eof.triviaLeaves_ne_eof l hl

/-- A tree is what has been matched, built. -/
theorem eq_build_of_answer {r : Machine.Run} {p : Parse} (h : answer s r = .ok p) :
    ∃ ns stop stats, r.answer? = some (some (ns, stop)) ∧
      p = ⟨Tree.build s .sourceFile ns, s, stats⟩ := by
  unfold answer at h
  split at h
  · next ns stop hresult =>
    cases h
    exact ⟨ns, stop, _, by simp [Machine.Run.answer?, hresult], rfl⟩
  · cases h
  · cases h
  · cases h

/-- **Trees come from the plain meaning.**  A tree over the tokens of a text is built from what its
root matches, and that covers what has been read. -/
theorem exists_build (hs : TokenStream.ofText text = .ok s) {root : Term}
    (hroot : ∀ g, ∀ t ∈ root.parts, Language.isPlain g t = true) {options : ParseOptions}
    {memo : Memo} {p : Parse} (h : (run root options s memo).1 = .ok p) :
    ∃ (m : Machine) (ns : List Match) (stop : Pos) (stats : Stats),
      Language.grammar = .ok m.grammar ∧ m.tokens = s.symbols ∧
      Parses m {} (.term root) {} (some (ns, stop)) ∧
      m.Tiles (· ∈ Language.cutKinds) {} (Match.leavesAll ns) stop ∧
      p = ⟨Tree.build s .sourceFile ns, s, stats⟩ := by
  obtain ⟨g, table, r, hg, hnone, hrun, hanswer⟩ := exists_run hs hroot options memo
  rw [hanswer] at h
  obtain ⟨ns, stop, stats, hmatched, rfl⟩ := eq_build_of_answer h
  have htrue : (machine g s options).MemoTrue table := fun key e hget => by
    simp [hnone] at hget
  have hparses := (Machine.runWith_answers htrue hrun).1 _ hmatched
  have htiles := hparses.covers (Language.rulesCut (m := machine g s options) hg)
    (Language.every_cuts (hroot g)) ns stop rfl
  exact ⟨machine g s options, ns, stop, stats, hg, rfl, hparses, htiles, rfl⟩

/-- **A tree over the tokens of a text has lost nothing**, if its root is matched up to the
end of the text. -/
theorem run_lossless (hs : TokenStream.ofText text = .ok s) {root : Term}
    (hroot : ∀ g, ∀ t ∈ root.parts, Language.isPlain g t = true)
    (hclosed : ∀ m : Machine, Language.grammar = .ok m.grammar → ∀ ns stop,
      Parses m {} (.term root) {} (some (ns, stop)) → m.kindAt stop = .eof)
    {options : ParseOptions} {memo : Memo} {p : Parse}
    (h : (run root options s memo).1 = .ok p) : Lossless text p := by
  obtain ⟨m, ns, stop, stats, hg, htokens, hparses, htiles, rfl⟩ := exists_build hs hroot h
  obtain ⟨ts, eof, htoks, heof, hempty, hsignificant, hcovers, hdone⟩ :=
    Machine.exists_covers hs htokens htiles (hclosed m hg ns stop hparses)
  exact lossless_build hs htoks heof hempty hsignificant hcovers hdone .sourceFile stats

/-- There is a tree of the tokens only. -/
theorem exists_stream {work : TokenStream → Except Error Parse} {p : Parse}
    (h : ((TokenStream.ofText text).mapError .lex >>= work) = .ok p) :
    ∃ s, TokenStream.ofText text = .ok s ∧ work s = .ok p := by
  cases hs : TokenStream.ofText text with
  | error e =>
    rw [hs] at h
    cases h
  | ok s =>
    rw [bind_stream hs] at h
    exact ⟨s, rfl, h⟩

/-- **Parsing loses nothing.**  Whatever the options, the tree of a file or of any other
construct has the whole text, and for its significant leaves the tokens of the text. -/
theorem parsing_lossless (text : List Char) (options : ParseOptions) :
    (∀ p, ofText text options = .ok p → Lossless text p) ∧
      ∀ entry p, ofEntry entry text options = .ok p → Lossless text p := by
  refine ⟨fun p h => ?_, fun entry p h => ?_⟩
  · obtain ⟨s, hs, hrun⟩ := exists_stream h
    exact run_lossless hs (fun g => Language.isPlain_rule Language.fileRule.name)
      (fun m hg ns stop => Language.kindAt_of_file hg) hrun
  · obtain ⟨s, hs, hrun⟩ := exists_stream h
    exact run_lossless hs (fun g => Language.isPlain_rule_ended entry.ruleName)
      (fun m hg ns stop => Language.kindAt_of_endsClosed rfl) hrun

/-- A type alias that ends in two brackets, which are one token. -/
def aliasText : List Char := "type A=B<C<u8>>;".toList

/-- It has a tree, as a file and alone, and the brackets come back as two leaves. -/
theorem parsing_lossless_alias : ∃ p q, ofText aliasText unlimited = .ok p ∧
    ofEntry .typeAlias aliasText unlimited = .ok q ∧
    (p.tree.leaves.map (·.1)).drop 8 = [.ident, .gt, .gt, .semicolon, .eof] ∧
    Lossless aliasText p ∧ Lossless aliasText q := by
  obtain ⟨p, hp, hleaves⟩ := ofText_of_treeWithin aliasText 200
    (fun tree => (tree.leaves.map (·.1)).drop 8 = [.ident, .gt, .gt, .semicolon, .eof])
    (by decide +kernel)
  obtain ⟨q, hq, -⟩ :=
    ofEntry_of_treeWithin .typeAlias aliasText 200 (fun _ => true) (by decide +kernel)
  obtain ⟨hallp, hallq⟩ := parsing_lossless aliasText unlimited
  exact ⟨p, q, hp, hq, of_decide_eq_true hleaves, hallp p hp, hallq _ q hq⟩

end Parse
end Packrat
