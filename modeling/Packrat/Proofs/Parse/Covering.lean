/-
# Leaves over a stream

Matches cover what they read, place by place (`Machine.Tiles`).  Over the tokens of a text
this says more, since places inside tokens are only found in tokens that can be cut
(`Machine.IsCutPlace`).  What is left at a place is then a token again, with others behind it
(`Machine.leftAt`): a leaf takes it whole, a piece leaves less of it.  Building trees of the
leaves adds the trivia of each token once, in front of it, so that the leaves of the trees
cover the tokens that have been read (`Machine.Tiles.isCovered`).
-/

import Packrat.Proofs.Parse.Ends
import Packrat.Proofs.Token.Cut
import Packrat.Proofs.Tree.Build

namespace Packrat

open Peg

namespace Peg.Machine

variable {text : List Char} {s : TokenStream} {m : Machine} {pos stop : Pos} {t : Token}
  {kind : Kind} {spelling : String}

/-! ## What is left at a place -/

/-- A place is between tokens, or inside one that can be cut. -/
def IsCutPlace (s : TokenStream) (pos : Pos) : Prop :=
  pos.isSplit = true → ∃ t, s.tokens[pos.index]? = some t ∧ (t.text, t.kind) ∈ Token.cuttable ∧
    pos.offset.toNat < t.text.utf8ByteSize

/-- What is left of a token at a place: all of it, or what is behind the pieces; trivia are
in front of the first piece. -/
def remnant (m : Machine) (pos : Pos) (t : Token) : Token :=
  if pos.isSplit then { t with kind := m.kindAt pos, text := m.textAt pos, trivia := [] } else t

/-- What is left of a stream at a place. -/
def leftAt (m : Machine) (s : TokenStream) (pos : Pos) : List Token :=
  match s.tokens[pos.index]? with
  | none => []
  | some t => m.remnant pos t :: s.tokens.toList.drop (pos.index + 1)

/-- The number of tokens whose trivia are in front of a place. -/
def behind (pos : Pos) : Nat := if pos.isSplit then pos.index + 1 else pos.index

theorem isCutPlace_index (i : Nat) : IsCutPlace s ⟨i, 0⟩ := by
  rintro ⟨⟩

theorem leftAt_index (i : Nat) : m.leftAt s ⟨i, 0⟩ = s.tokens.toList.drop i := by
  have hwhole : Pos.isSplit ⟨i, 0⟩ = false := rfl
  simp only [leftAt, remnant, hwhole]
  cases ht : s.tokens[i]? with
  | none =>
    have hle : s.tokens.toList.length ≤ i := by
      rw [Array.length_toList]
      exact Array.getElem?_eq_none_iff.mp ht
    exact (List.drop_eq_nil_of_le hle).symm
  | some t =>
    obtain ⟨hlt, heq⟩ := Array.getElem?_eq_some_iff.mp ht
    have hdrop := List.drop_eq_getElem_cons (l := s.tokens.toList) (i := i) hlt
    rw [hdrop, Array.getElem_toList, heq]
    rfl

theorem leftAt_cons (ht : s.tokens[pos.index]? = some t) :
    m.leftAt s pos = m.remnant pos t :: m.leftAt s ⟨pos.index + 1, 0⟩ := by
  rw [leftAt, ht, leftAt_index]

section

variable (htokens : m.tokens = s.symbols)
include htokens

theorem getElem?_symbols (i : Nat) : m.tokens[i]? = s.tokens[i]?.map Token.symbol := by
  rw [htokens, TokenStream.symbols_eq, Array.getElem?_map]

/-- Behind all tokens the text has ended. -/
theorem exists_token (hkind : m.kindAt pos ≠ .eof) : ∃ t, s.tokens[pos.index]? = some t := by
  have hlt := index_lt_of_kindAt_ne hkind
  rw [htokens, TokenStream.symbols_eq, Array.size_map] at hlt
  exact ⟨_, Array.getElem?_eq_getElem hlt⟩

/-- There is a token where something can be cut off. -/
theorem exists_token_of_begins (hbegins : m.BeginsWith pos spelling) :
    ∃ t, s.tokens[pos.index]? = some t := by
  cases ht : s.tokens[pos.index]? with
  | some t => exact ⟨t, rfl⟩
  | none =>
    have hsymbol : m.tokens[pos.index]? = none := by rw [getElem?_symbols htokens, ht]; rfl
    have hlt := hbegins.1
    simp [textAt, hsymbol] at hlt

theorem remnant_eq (ht : s.tokens[pos.index]? = some t) :
    (m.remnant pos t).kind = m.kindAt pos ∧ (m.remnant pos t).text = m.textAt pos := by
  have hsymbol : m.tokens[pos.index]? = some t.symbol := by rw [getElem?_symbols htokens, ht]; rfl
  unfold remnant
  split
  · exact ⟨rfl, rfl⟩
  · next hwhole =>
    simp [kindAt, textAt, hsymbol, hwhole, Token.symbol]

/-- The text at a place inside a token is what is behind so many bytes of it. -/
theorem textAt_split (ht : s.tokens[pos.index]? = some t) (hsplit : pos.isSplit = true)
    {pre rest : List Char} (htext : t.text.toList = pre ++ rest)
    (hsize : Text.byteSize pre = pos.offset.toNat) : m.textAt pos = String.ofList rest := by
  have hdrop : Text.dropBytes? pos.offset.toNat t.text.toList = some rest :=
    Text.dropBytes?_eq_some_iff.mpr ⟨pre, htext, hsize⟩
  have hsymbol : m.tokens[pos.index]? = some t.symbol := by rw [getElem?_symbols htokens, ht]; rfl
  simp [textAt, hsymbol, hsplit, Token.symbol, hdrop]

/-- Inside a token that can be cut, what is left is a punctuator. -/
theorem remnant_split (hplace : IsCutPlace s pos) (hsplit : pos.isSplit = true) :
    (m.textAt pos, m.kindAt pos) ∈ Kind.punctuators ∧ ∃ t, s.tokens[pos.index]? = some t ∧
      t.text.utf8ByteSize ≤ 3 ∧ ∃ pre, t.text.toList = pre ++ (m.textAt pos).toList ∧
        Text.byteSize pre = pos.offset.toNat := by
  obtain ⟨t, ht, hcut, hlt⟩ := hplace hsplit
  have hsymbol : m.tokens[pos.index]? = some t.symbol := by rw [getElem?_symbols htokens, ht]; rfl
  have hne : pos.offset.toNat ≠ 0 := by
    intro hzero
    have hoffset : pos.offset = 0 := UInt8.toNat_inj.mp hzero
    simp [Pos.isSplit, hoffset] at hsplit
  obtain ⟨hsize, kind, hpunct⟩ := Token.punctuator?_drop hcut hne hlt
  have htext : m.textAt pos = String.ofList (t.text.toList.drop pos.offset.toNat) :=
    textAt_split htokens ht hsplit (List.take_append_drop ..).symm hsize
  have hkind : m.kindAt pos = kind := by
    simp [kindAt, hsymbol, hsplit, htext, hpunct]
  refine ⟨?_, t, ht, Token.size_le_of_mem_cuttable hcut, _, ?_, hsize⟩
  · rw [htext, hkind]
    exact Kind.mem_punctuators_of_punctuator? hpunct
  · rw [htext, String.toList_ofList, List.take_append_drop]

/-- What is left of a token that can still be cut is spelled as its kind is. -/
theorem mem_punctuators_of_begins (hs : TokenStream.ofText text = .ok s)
    (hplace : IsCutPlace s pos) (ht : s.tokens[pos.index]? = some t)
    (hkind : kind ∈ Language.cutKinds) (hspell : kind.spelling? = some spelling)
    (hstart : spelling.toList.isPrefixOf (m.textAt pos).toList = true) :
    (m.textAt pos, m.kindAt pos) ∈ Kind.punctuators := by
  by_cases hsplit : pos.isSplit = true
  · exact (remnant_split htokens hplace hsplit).1
  · obtain ⟨hk, htext⟩ := remnant_eq htokens ht
    have hwhole : m.remnant pos t = t := if_neg hsplit
    rw [hwhole] at hk htext
    rw [← hk, ← htext]
    rw [← htext] at hstart
    have hmem : t ∈ s.tokens.toList := Array.mem_toList_iff.mpr (Array.mem_of_getElem? ht)
    exact TokenStream.mem_punctuators_of_cut hs hkind hspell hmem
      (List.isPrefixOf_iff_prefix.mp hstart)

end

/-! ## Reading on -/

/-- The trivia in front of a place are those of what is left there. -/
theorem triviaUpTo_behind (m : Machine) (ht : s.tokens[pos.index]? = some t) :
    Tree.leavesAll (Tree.triviaUpTo s.tokens (behind pos) pos.index).1 =
        (m.remnant pos t).triviaLeaves ∧
      (Tree.triviaUpTo s.tokens (behind pos) pos.index).2 = pos.index + 1 := by
  have hself := Tree.triviaUpTo_self ht
  unfold behind remnant
  split
  · have hagain := Tree.triviaUpTo_again s.tokens pos.index pos.index
    rw [hself] at hagain
    rw [hagain]
    exact ⟨rfl, rfl⟩
  · rw [hself]
    exact ⟨Tree.leavesAll_map_ofTrivia t.trivia, rfl⟩

/-- A leaf in a tree, behind the trivia in front of its place. -/
theorem rendered_leaf (m : Machine) (ht : s.tokens[pos.index]? = some t) {word : String}
    {part : Option (UInt8 × UInt8)} (hpart : Tree.textOfPart t.text part = word) :
    Tree.rendered s.tokens (behind pos) [.token pos.index kind part] =
      ((m.remnant pos t).triviaLeaves ++ [(kind, word)], pos.index + 1) := by
  obtain ⟨htrivia, hdone⟩ := triviaUpTo_behind m ht
  rw [Tree.rendered_token ht, htrivia, hdone, hpart]

section

variable (htokens : m.tokens = s.symbols)
include htokens

/-- **A leaf reads all that is left of a token.** -/
theorem rendered_leafAt (hplace : IsCutPlace s pos) (ht : s.tokens[pos.index]? = some t) :
    Tree.rendered s.tokens (behind pos) (m.leafAt pos (m.kindAt pos)).1 =
      ((m.remnant pos t).triviaLeaves ++ [((m.remnant pos t).kind, (m.remnant pos t).text)],
        pos.index + 1) := by
  obtain ⟨hkind, htext⟩ := remnant_eq htokens ht
  have hsymbol : m.tokens[pos.index]? = some t.symbol := by rw [getElem?_symbols htokens, ht]; rfl
  rw [hkind, htext]
  refine rendered_leaf m ht ?_
  by_cases hsplit : pos.isSplit = true
  · obtain ⟨-, t', ht', hshort, pre, hpre, hsize⟩ := remnant_split htokens hplace hsplit
    rw [ht] at ht'
    cases ht'
    rw [if_pos hsplit, hsymbol]
    have hall : t.text.toList = pre ++ (m.textAt pos).toList ++ [] := by
      rw [hpre, List.append_nil]
    refine Tree.textOfPart_eq hall hsize.symm ?_
    have hbytes : t.text.utf8ByteSize = pos.offset.toNat + (m.textAt pos).utf8ByteSize := by
      rw [← Text.byteSize_toList, hpre, Text.byteSize_append, hsize, Text.byteSize_toList]
    rw [← hbytes, UInt8.toNat_ofNat']
    exact Nat.mod_eq_of_lt (by simp only [Token.symbol]; omega)
  · have hwhole : m.remnant pos t = t := if_neg hsplit
    rw [if_neg hsplit, ← htext, hwhole]
    rfl

/-- A token that something is cut off can be cut, and what is left of it too. -/
theorem mem_cuttable_of_begins (hs : TokenStream.ofText text = .ok s) (hplace : IsCutPlace s pos)
    (ht : s.tokens[pos.index]? = some t) (hkind : kind ∈ Language.cutKinds)
    (hspell : kind.spelling? = some spelling) (hbegins : m.BeginsWith pos spelling) :
    ((m.remnant pos t).text, (m.remnant pos t).kind) ∈ Token.cuttable ∧
      (t.text, t.kind) ∈ Token.cuttable := by
  obtain ⟨hlt, hstart⟩ := hbegins
  obtain ⟨hk, htext⟩ := remnant_eq htokens ht
  have hcut : ((m.remnant pos t).text, (m.remnant pos t).kind) ∈ Token.cuttable := by
    rw [hk, htext]
    exact Token.mem_cuttable hkind hspell
      (mem_punctuators_of_begins htokens hs hplace ht hkind hspell hstart) hlt hstart
  refine ⟨hcut, ?_⟩
  by_cases hsplit : pos.isSplit = true
  · obtain ⟨t', ht', hcut', -⟩ := hplace hsplit
    rw [ht] at ht'
    cases ht'
    exact hcut'
  · have hwhole : m.remnant pos t = t := if_neg hsplit
    rwa [hwhole] at hcut

/-- Where a piece stands in its token, and the place behind it. -/
theorem exists_pieceAt (hspell : kind.spelling? = some spelling)
    (ht : s.tokens[pos.index]? = some t) (hcut : (t.text, t.kind) ∈ Token.cuttable)
    (hbegins : m.BeginsWith pos spelling) :
    ∃ pre rest, t.text.toList = pre ++ spelling.toList ++ rest ∧
      (m.textAt pos).toList = spelling.toList ++ rest ∧
      Text.byteSize pre = pos.offset.toNat ∧
      (pieceAt pos kind spelling).2.offset.toNat = pos.offset.toNat + spelling.utf8ByteSize ∧
      (pieceAt pos kind spelling).2.offset.toNat < t.text.utf8ByteSize ∧
      (pieceAt pos kind spelling).2.isSplit = true := by
  obtain ⟨hlt, hstart⟩ := hbegins
  have hsymbol : m.tokens[pos.index]? = some t.symbol := by rw [getElem?_symbols htokens, ht]; rfl
  have hshort : t.text.utf8ByteSize ≤ 3 := Token.size_le_of_mem_cuttable hcut
  have hpos : 0 < spelling.utf8ByteSize :=
    Nat.pos_of_ne_zero fun hzero =>
      Kind.spelling_ne_empty hspell (String.utf8ByteSize_eq_zero_iff.mp hzero)
  obtain ⟨pre, hpre, hsize⟩ := textAt_eq hsymbol (by omega)
  obtain ⟨rest, hrest⟩ := List.isPrefixOf_iff_prefix.mp hstart
  have hbytes : t.text.utf8ByteSize = pos.offset.toNat + (m.textAt pos).utf8ByteSize := by
    rw [← Text.byteSize_toList, ← hsize, ← Text.byteSize_toList (m.textAt pos),
      ← Text.byteSize_append, ← hpre]
    rfl
  have hoffset : (pieceAt pos kind spelling).2.offset.toNat =
      pos.offset.toNat + spelling.utf8ByteSize := by
    simp only [pieceAt]
    rw [UInt8.toNat_add, UInt8.toNat_ofNat', Nat.add_mod_mod, Nat.mod_eq_of_lt (by omega)]
  have hne : (pieceAt pos kind spelling).2.offset ≠ 0 := by
    intro hzero
    rw [hzero, UInt8.toNat_zero] at hoffset
    omega
  refine ⟨pre, rest, ?_, hrest.symm, hsize, hoffset, by omega, by simpa [Pos.isSplit] using hne⟩
  rw [List.append_assoc, hrest]
  exact hpre

/-- **A piece leaves less of a token.** -/
theorem rendered_pieceAt (hspell : kind.spelling? = some spelling)
    (ht : s.tokens[pos.index]? = some t) (hcut : (t.text, t.kind) ∈ Token.cuttable)
    (hbegins : m.BeginsWith pos spelling) :
    IsCutPlace s (pieceAt pos kind spelling).2 ∧ (pieceAt pos kind spelling).2.isSplit = true ∧
      (m.remnant pos t).text = spelling ++ m.textAt (pieceAt pos kind spelling).2 ∧
      Tree.rendered s.tokens (behind pos) (pieceAt pos kind spelling).1 =
        ((m.remnant pos t).triviaLeaves ++ [(kind, spelling)], pos.index + 1) := by
  obtain ⟨pre, rest, htext, hat, hsize, hoffset, hlt, hsplit⟩ :=
    exists_pieceAt htokens hspell ht hcut hbegins
  refine ⟨fun _ => ⟨t, ht, hcut, hlt⟩, hsplit, ?_, ?_⟩
  · have hrest : m.textAt (pieceAt pos kind spelling).2 = String.ofList rest := by
      have ht' : s.tokens[(pieceAt pos kind spelling).2.index]? = some t := ht
      refine textAt_split htokens ht' hsplit htext ?_
      rw [Text.byteSize_append, hsize, Text.byteSize_toList, hoffset]
    rw [(remnant_eq htokens ht).2, hrest, ← String.toList_inj, String.toList_append, hat,
      String.toList_ofList]
  · exact rendered_leaf m ht (Tree.textOfPart_eq htext hsize.symm hoffset)

/-- Some leaves, built, cover the tokens from one place up to another; of a token that has been
cut, what was left of it. -/
def IsCovered (m : Machine) (s : TokenStream) (pos : Pos) (ls : List Match) (stop : Pos) : Prop :=
  ∃ ts, m.leftAt s pos = ts ++ m.leftAt s stop ∧ (pos.isSplit = true → ts ≠ []) ∧
    Token.Covers ts (Tree.rendered s.tokens (behind pos) ls).1 ∧
    (Tree.rendered s.tokens (behind pos) ls).2 = stop.index

variable {ls : List Match}

/-- A leaf in front covers what is left of a token. -/
theorem IsCovered.leaf (hplace : IsCutPlace s pos) (hkind : m.kindAt pos ≠ .eof)
    (h : m.IsCovered s (m.leafAt pos (m.kindAt pos)).2 ls stop) :
    m.IsCovered s pos ((m.leafAt pos (m.kindAt pos)).1 ++ ls) stop := by
  obtain ⟨t, ht⟩ := exists_token htokens hkind
  obtain ⟨ts, hleft, -, hcovers, hdone⟩ := h
  have hall : m.leftAt s pos = m.remnant pos t :: ts ++ m.leftAt s stop := by
    rw [List.cons_append, ← hleft, leftAt_cons ht]
    rfl
  have hlive : (m.remnant pos t).kind ≠ .eof := by rwa [(remnant_eq htokens ht).1]
  refine ⟨m.remnant pos t :: ts, hall, fun _ => List.cons_ne_nil _ _, ?_, ?_⟩
  · rw [Tree.rendered_append, rendered_leafAt htokens hplace ht, List.append_assoc]
    exact .cons (.whole hlive) hcovers
  · rw [Tree.rendered_append, rendered_leafAt htokens hplace ht]
    exact hdone

/-- A piece in front, and what covers the rest of its token, cover the token. -/
theorem IsCovered.piece (hspell : kind.spelling? = some spelling)
    (ht : s.tokens[pos.index]? = some t) (hcut : (t.text, t.kind) ∈ Token.cuttable)
    (hcutRest : ((m.remnant pos t).text, (m.remnant pos t).kind) ∈ Token.cuttable)
    (hbegins : m.BeginsWith pos spelling)
    (h : m.IsCovered s (pieceAt pos kind spelling).2 ls stop) :
    m.IsCovered s pos ((pieceAt pos kind spelling).1 ++ ls) stop := by
  obtain ⟨hplace, hsplit, htext, hrendered⟩ := rendered_pieceAt htokens hspell ht hcut hbegins
  have hback : s.tokens[(pieceAt pos kind spelling).2.index]? = some t := ht
  obtain ⟨ts, hleft, hne, hcovers, hdone⟩ := h
  rw [behind, if_pos hsplit] at hcovers hdone
  cases ts with
  | nil => exact absurd rfl (hne hsplit)
  | cons u ts =>
    rw [leftAt_cons hback, List.cons_append] at hleft
    obtain ⟨rfl, hothers⟩ := List.cons_eq_cons.mp hleft
    obtain ⟨hkind, hrest⟩ := remnant_eq htokens hback
    have hpunct := (remnant_split htokens hplace hsplit).1
    have hbare : (m.remnant (pieceAt pos kind spelling).2 t).trivia = [] := by
      rw [remnant, if_pos hsplit]
    have hall : m.leftAt s pos = m.remnant pos t :: ts ++ m.leftAt s stop := by
      rw [List.cons_append, ← hothers, leftAt_cons ht]
      rfl
    refine ⟨m.remnant pos t :: ts, hall, fun _ => List.cons_ne_nil _ _, ?_, ?_⟩
    · rw [Tree.rendered_append, hrendered]
      refine hcovers.cut hbare hcutRest hspell ?_ ?_
      · rw [hkind, hrest]
        exact Kind.spelling?_of_mem_punctuators hpunct
      · rw [hrest, htext]
    · rw [Tree.rendered_append, hrendered]
      exact hdone

/-- **The leaves of the trees cover the tokens that have been read.**  What covers something of
a stream stops at a place like that where it began, and if this is between tokens, all tokens
up to it are covered. -/
theorem Tiles.isCovered (hs : TokenStream.ofText text = .ok s)
    (h : m.Tiles (· ∈ Language.cutKinds) pos ls stop) (hplace : IsCutPlace s pos) :
    IsCutPlace s stop ∧ (stop.isSplit = false → m.IsCovered s pos ls stop) := by
  induction h with
  | @nil pos =>
    refine ⟨hplace, fun hstop => ⟨[], rfl, fun hsplit => ?_, .nil, ?_⟩⟩
    · rw [hstop] at hsplit
      cases hsplit
    · rw [behind, hstop]
      rfl
  | leaf hkind _ ih =>
    obtain ⟨hstop, hcovered⟩ := ih (isCutPlace_index _)
    exact ⟨hstop, fun hwhole => (hcovered hwhole).leaf htokens hplace hkind⟩
  | piece hcuts hspell hbegins _ ih =>
    obtain ⟨t, ht⟩ := exists_token_of_begins htokens hbegins
    obtain ⟨hcutRest, hcut⟩ := mem_cuttable_of_begins htokens hs hplace ht hcuts hspell hbegins
    obtain ⟨hstop, hcovered⟩ := ih (rendered_pieceAt htokens hspell ht hcut hbegins).1
    exact ⟨hstop, fun hwhole =>
      (hcovered hwhole).piece htokens hspell ht hcut hcutRest hbegins⟩

end

end Peg.Machine
end Packrat
