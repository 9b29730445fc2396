/-
# Executable lines are lines of the index

The line of a statement is found by way of the stream: from the first significant token under the
statement, which may be a piece of a token, back to the token that covers its offset, by bisection
(`TokenStream.lineAt?_of_inside`).  It is the line that the index of the text has for the offset
where the statement begins (`Parse.IsPlaced.line_of_node`), because

* a node begins where its first significant token does (`Parse.IsFramed`);
* this leaf lies in a token of the stream, on the line of that token (`Parse.exists_token_of_leaf`,
  `Located.LiesIn.inside`), and no other token is between its offset and the token.

So executable lines are lines of code, and there are no more of them than statements
(`Metrics.executable_lines_agree`).
-/

import Packrat.Metrics
import Packrat.Proofs.Metrics.Lines
import Packrat.Proofs.Parse.Grouping
import Packrat.Proofs.Parse.Places

namespace Packrat

open Peg

/-! ## Finding a token by an offset -/

namespace TokenStream

variable {text : List Char} {s : TokenStream} {t u : Token} {i j offset : Nat}

/-- Tokens follow each other. -/
theorem stop_le_start (hs : ofText text = .ok s) (hij : i < j) (ht : s.tokens[i]? = some t)
    (hu : s.tokens[j]? = some u) : t.range.stop ≤ u.range.start := by
  obtain ⟨-, hpairs⟩ := (laidOut_pieces hs).1.chain.pairwise
  rw [List.pairwise_map, pieces, List.pairwise_flatMap] at hpairs
  obtain ⟨hi, rfl⟩ := Array.getElem?_eq_some_iff.mp ht
  obtain ⟨hj, rfl⟩ := Array.getElem?_eq_some_iff.mp hu
  have hpair := List.pairwise_iff_getElem.mp hpairs.2 i j (by simpa using hi) (by simpa using hj)
    hij
  exact hpair _ (List.mem_append_right _ List.mem_cons_self) _
    (List.mem_append_right _ List.mem_cons_self)

/-- Tokens begin in order. -/
theorem start_le_start (hs : ofText text = .ok s) (hij : i ≤ j) (ht : s.tokens[i]? = some t)
    (hu : s.tokens[j]? = some u) : t.range.start ≤ u.range.start := by
  rcases Nat.lt_or_eq_of_le hij with hlt | rfl
  · obtain ⟨pre, -, -, hbehind, -⟩ := exists_around hs (Array.mem_of_getElem? ht)
    have hstart : t.range.start = Text.byteSize pre := hbehind.start
    have hstop : t.range.stop = Text.byteSize pre + Text.byteSize t.text.toList := hbehind.stop
    have hle := stop_le_start hs hlt ht hu
    omega
  · obtain rfl := Option.some.inj (ht.symm.trans hu)
    exact Nat.le_refl _

/-- The tokens up to the one that covers an offset are those that begin there or before. -/
theorem tokensUpTo_of_inside (hs : ofText text = .ok s) (ht : s.tokens[i]? = some t)
    (hstart : t.range.start ≤ offset) (hstop : offset < t.range.stop) :
    s.tokensUpTo offset = i + 1 := by
  have hiff {j : Nat} (hj : j < s.size) : j < s.tokensUpTo offset ↔
      (s.tokens[j]?.any fun u => decide (u.range.start ≤ offset)) = true := by
    refine lt_bisect_iff (fun i j hij h => ?_) (Nat.zero_le j) hj
    obtain ⟨v, hv, hle⟩ := (Option.any_eq_true ..).mp h
    obtain ⟨hlt, -⟩ := Array.getElem?_eq_some_iff.mp hv
    have hu : s.tokens[i]? = some s.tokens[i] := Array.getElem?_eq_getElem (by omega)
    have hfirst := start_le_start hs hij hu hv
    rw [hu, Option.any_some, decide_eq_true_iff]
    exact Nat.le_trans hfirst (of_decide_eq_true hle)
  obtain ⟨hi, -⟩ := Array.getElem?_eq_some_iff.mp ht
  have hpast : i < s.tokensUpTo offset := (hiff hi).mpr (by simp [ht, hstart])
  have hend : s.tokensUpTo offset ≤ s.size := (bisect_mem _ 0 s.size (Nat.zero_le _)).2
  -- the next token begins behind the offset
  by_contra hne
  have hnext : i + 1 < s.size := by omega
  obtain ⟨u, hu, hle⟩ := (Option.any_eq_true ..).mp ((hiff hnext).mp (by omega))
  have hbehind := stop_le_start hs (Nat.lt_succ_self i) ht hu
  have hle : u.range.start ≤ offset := of_decide_eq_true hle
  omega

/-- **The line of an offset inside a token is that of the token.** -/
theorem lineAt?_of_inside (hs : ofText text = .ok s) (ht : t ∈ s.tokens)
    (hstart : t.range.start ≤ offset) (hstop : offset < t.range.stop) :
    s.lineAt? offset = some t.position.line := by
  obtain ⟨i, hi⟩ := Array.getElem?_of_mem ht
  rw [lineAt?, tokensUpTo_of_inside hs hi hstart hstop]
  simp [hi]

/-- The line of a token is a line of code. -/
theorem mem_codeLines (ht : t ∈ s.tokens) (hkind : t.kind ≠ .eof) :
    t.position.line ∈ s.codeLines := by
  rw [codeLines, mem_distinctSorted, List.mem_flatMap]
  refine ⟨t, List.mem_filter.mpr ⟨Array.mem_toList_iff.mpr ht, bne_iff_ne.mpr hkind⟩, ?_⟩
  have hpos := List.length_pos_iff.mpr (Text.lines_ne_nil t.text.toList)
  exact List.mem_range'_1.mpr ⟨Nat.le_refl _, by omega⟩

end TokenStream

/-! ## Lines of statements -/

namespace Parse

open Located

variable {text : List Char} {s : TokenStream} {p : Parse} {n : Located}

/-- The executable lines of a parse of a text are those of its plain statements. -/
structure CountsExecutable (text : List Char) (p : Parse) : Prop where
  /-- Executable lines rise, and none is counted twice. -/
  rises : p.executableLines.Pairwise (· < ·)
  /-- An executable line is one that the index of the text has for the offset where a declaration or
  an expression statement begins. -/
  lines : ∀ l, l ∈ p.executableLines ↔ ∃ n ∈ p.root.descendants,
    (n.kind = .letStmt ∨ n.kind = .exprStmt) ∧ LineIndex.lineOf text n.start = l
  /-- Executable lines are lines of code. -/
  code : p.executableLines ⊆ p.stream.codeLines
  /-- There are no more of them than statements. -/
  few : (Metrics.ofParse p).executableLines ≤ (Metrics.ofParse p).statements

/-- What a parse of a text has: nothing is lost, nodes begin and end on tokens, and leaves cover the
tokens. -/
structure IsPlaced (text : List Char) (p : Parse) : Prop where
  lossless : Lossless text p
  framed : p.IsFramed
  covered : p.IsCovered

/-- A node below the root begins with a significant leaf, and its first significant token is found
there. -/
theorem IsFramed.exists_first (h : p.IsFramed) (hn : n ∈ p.root.descendants.tail) :
    ∃ first ∈ p.root.leaves, first.kind.isSignificant = true ∧ first.start = n.start ∧
      ∃ found, n.firstSignificant? = some found ∧ found.start = n.start := by
  obtain ⟨first, last, hhead, -, hfirst, -, hrange⟩ := h.inner n hn
  have hdesc := List.mem_of_mem_tail hn
  have hstart : n.start = first.start := congrArg Range.start hrange
  have hin := leaves_isInfix hdesc
  obtain ⟨hends, -⟩ := h.ends n hdesc
  rw [hfirst, Option.map_some] at hends
  obtain ⟨found, hfound, hspot⟩ := Option.map_eq_some_iff.mp hends
  exact ⟨first, hin.subset (List.mem_of_head? hhead),
    (List.mem_filter.mp (List.mem_of_head? hfirst)).2, hstart.symm, found, hfound,
    (congrArg Prod.snd hspot).trans hstart.symm⟩

/-- **The line of a node is found** by way of the stream, and it is a line of code. -/
theorem IsPlaced.line_of_node (h : p.IsPlaced text) (hn : n ∈ p.root.descendants.tail) :
    (n.firstSignificant?.bind fun first => p.stream.lineAt? first.start) =
      some (LineIndex.lineOf text n.start) ∧
    LineIndex.lineOf text n.start ∈ p.stream.codeLines := by
  obtain ⟨first, hleaf, hkind, hstart, found, hfound, hplace⟩ := h.framed.exists_first hn
  obtain ⟨t, ht, htkind, hlies⟩ := exists_token_of_leaf h.lossless.stream h.covered hleaf hkind
  obtain ⟨hge, hlt, hline⟩ :=
    hlies.inside h.lossless.stream ht (h.lossless.text_ne_empty hleaf hkind)
  rw [hstart] at hge hlt hline
  rw [hfound, Option.bind_some, hplace, hline]
  exact ⟨TokenStream.lineAt?_of_inside h.lossless.stream ht hge hlt,
    TokenStream.mem_codeLines ht htkind⟩

/-- The executable lines of a parse of a text, if the root is no statement. -/
theorem IsPlaced.countsExecutable (h : p.IsPlaced text) (hroot : p.root.isPlainStatement = false) :
    p.CountsExecutable text := by
  have htail : ∀ n ∈ p.root.descendants.filter (·.isPlainStatement),
      n ∈ p.root.descendants.tail := by
    intro n hn
    obtain ⟨hn, hstmt⟩ := List.mem_filter.mp hn
    refine (eq_or_mem_tail hn).resolve_left ?_
    rintro rfl
    rw [hroot] at hstmt
    cases hstmt
  have hlines : ∀ l, l ∈ p.executableLines ↔ ∃ n ∈ p.root.descendants.filter (·.isPlainStatement),
      LineIndex.lineOf text n.start = l := by
    intro l
    rw [executableLines, mem_distinctSorted, List.mem_filterMap]
    refine exists_congr fun n => and_congr_right fun hn => ?_
    show (n.firstSignificant?.bind fun first => p.stream.lineAt? first.start) = some l ↔ _
    rw [(h.line_of_node (htail n hn)).1, Option.some_inj]
  refine ⟨pairwise_distinctSorted _, fun l => ?_, fun l hl => ?_, ?_⟩
  · rw [hlines]
    refine exists_congr fun n => ?_
    rw [List.mem_filter, and_assoc]
    simp [isPlainStatement]
  · obtain ⟨n, hn, rfl⟩ := (hlines l).mp hl
    exact (h.line_of_node (htail n hn)).2
  · calc (Metrics.ofParse p).executableLines
      _ ≤ (p.root.descendants.filter (·.isPlainStatement)).length :=
        Nat.le_trans (length_distinctSorted_le _) (List.length_filterMap_le _ _)
      _ ≤ (Metrics.ofParse p).statements := by
        refine (List.monotone_filter_right _ fun n hn => ?_).length_le
        simp [isStatement, hn]

/-- A tree of a whole file over the tokens of a text is placed, and its root is no statement. -/
theorem ofStream_countsExecutable (hs : TokenStream.ofText text = .ok s) {options : ParseOptions}
    {memo : Memo} (h : (ofStream options s memo).1 = .ok p) : p.CountsExecutable text := by
  have hplain := fun g => Language.isPlain_rule (g := g) Language.fileRule.name
  have hclosed : ∀ m : Machine, Language.grammar = .ok m.grammar → ∀ ns stop,
      Parses m {} (.term (.rule Language.fileRule.name)) {} (some (ns, stop)) →
        m.kindAt stop = .eof :=
    fun m hg ns stop => Language.kindAt_of_file hg
  have hplaced : p.IsPlaced text :=
    ⟨run_lossless hs hplain hclosed h,
      run_framed hs hplain (fun g => Language.fills_rule g _) hclosed h,
      run_covers hs hplain hclosed h⟩
  refine hplaced.countsExecutable ?_
  rw [isPlainStatement, kind_root hs hplain h]
  rfl

end Parse

namespace Metrics

open Parse

/-- **Executable lines are consistent**, in every tree of a file, whatever the options and whatever
a table of memos held before. -/
theorem executable_lines_agree (text : List Char) (options : ParseOptions) :
    (∀ p, ofText text options = .ok p → p.CountsExecutable text) ∧
      ∀ s memo p, TokenStream.ofText text = .ok s → (Parse.ofStream options s memo).1 = .ok p →
        p.CountsExecutable text := by
  refine ⟨fun p h => ?_, fun s memo p hs h => ofStream_countsExecutable hs h⟩
  obtain ⟨s, hs, hrun⟩ := exists_stream h
  exact ofStream_countsExecutable hs hrun

/-- Declarations and expressions in two blocks, one of which begins with half of a token. -/
def borrowedText : List Char := "fn f()\x7b\r\nlet a;\x7bb;\n/*\n*/&&c;\x7d\x7d".toList

/-- It has four plain statements, on two lines. -/
theorem executable_lines_agree_borrowed : ∃ s p, TokenStream.ofText borrowedText = .ok s ∧
    ofText borrowedText unlimited = .ok p ∧ (Parse.ofStream unlimited s {}).1 = .ok p ∧
    p.executableLines = [2, 4] ∧ p.CountsExecutable borrowedText := by
  obtain ⟨p, hp, hlines⟩ := ofText_of_treeWithin borrowedText 200
    (fun tree => (TokenStream.ofText borrowedText).toOption.any fun s =>
      (Parse.mk tree s ⟨0, 0⟩).executableLines = [2, 4]) (by decide +kernel)
  obtain ⟨s, hs, hrun⟩ := exists_stream hp
  have hstream : p.stream = s := by
    obtain ⟨-, -, -, -, -, -, -, -, rfl⟩ :=
      exists_build hs (fun g => Language.isPlain_rule Language.fileRule.name) hrun
    rfl
  rw [hs] at hlines
  have hlines : p.executableLines = [2, 4] := by
    rw [← hstream] at hlines
    exact of_decide_eq_true hlines
  exact ⟨s, p, hs, hp, hrun, hlines, (executable_lines_agree borrowedText unlimited).1 p hp⟩

end Metrics
end Packrat
