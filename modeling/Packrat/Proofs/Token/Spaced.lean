/-
# Words with spaces between them

A word that is read whole wherever it stands between spaces (`Lexeme.IsWord`) becomes a token
of its own, with the space in front of it for its trivia.  So a text of such words has a stream
that can be written down (`TokenStream.ofText_words`):

| of the token of a word behind the text `before` and a space | is |
| --- | --- |
| the trivia | the space |
| the range | as many bytes as the word has, behind `before` and the space |
| the position | where a cursor is that has walked over both |

Integers and most punctuators are words in this sense.
-/

import Packrat.Proofs.Lexeme.Number
import Packrat.Proofs.Token.Layout

namespace Packrat
namespace Lexeme

/-- Nothing, or a space first. -/
def IsGap (rest : List Char) : Prop := rest = [] ∨ ∃ more, rest = ' ' :: more

/-- The word is read whole as a lexeme of the kind, if it is between spaces or at an end of the
text. -/
def IsWord (kind : Kind) (word : List Char) : Prop :=
  ∃ c cs, word = c :: cs ∧ isSpace c = false ∧ ∀ before rest, isAfterPoint before = false →
    IsGap rest → scan before c (cs ++ rest) = .ok kind cs.length

/-! ## Integers -/

/-- Digits begin nothing but numbers. -/
theorem scan_of_isDigit {c : Char} (hc : c.isDigit = true) (before cs : List Char) :
    isSpace c = false ∧ scan before c cs = .literal 0 (numberSize before c cs) := by
  have hne : ∀ d : Char, d.isDigit = false → c ≠ d := by
    rintro d hd rfl
    rw [hc] at hd
    cases hd
  have hlow : ¬ c ≤ '\r' := by
    intro hle
    simp only [Char.isDigit, Bool.and_eq_true, decide_eq_true_eq] at hc
    have hzero : '0' ≤ c := hc.1
    exact absurd (Char.le_trans hzero hle) (by decide)
  have hspace : isSpace c = false := by
    simp [isSpace, hlow, hne]
  exact ⟨hspace, by simp [scan, hspace, hne, hc]⟩

theorem IsInteger.isWord {word : List Char} (h : IsInteger word) : IsWord .intNumber word := by
  obtain ⟨c, cs, rfl, hc, hsize⟩ := h
  refine ⟨c, cs, rfl, (scan_of_isDigit hc [] []).1, fun before rest hbefore hrest => ?_⟩
  have happend : numberSize [] c (cs ++ rest) = numberSize [] c cs := by
    rcases hrest with rfl | ⟨more, rfl⟩
    · rw [List.append_nil]
    · exact numberSize_append [] c cs more
  rw [(scan_of_isDigit hc before _).2, numberSize_of_not_isAfterPoint hbefore, happend, hsize]
  simp [Reading.literal]

/-! ## Punctuators -/

/-- The characters that begin operators. -/
def operatorChars : List Char := ['=', '+', '-', '*', '/', '%', '^', '&', '|', '<', '>', '!']

/-- Where no comment begins, only the table of punctuators is asked about such a character. -/
theorem scan_of_mem_operatorChars {c : Char} (hc : c ∈ operatorChars) {cs : List Char}
    (hline : cs.head? ≠ some '/') (hblock : cs.head? ≠ some '*') (before : List Char) :
    isSpace c = false ∧ scan before c cs = ((punctuatorAt? (c :: cs)).map fun found =>
      Reading.ok found.1 (found.2 - 1)).getD (.fault .unexpectedChar 0) := by
  have hall : operatorChars.all (fun c => !isSpace c && c != '"' && c != '\'' && c != 'r' &&
      c != 'b' && !c.isDigit && !c.isAlpha && c != '_' && Text.isAscii c && c != '\\') = true := by
    decide
  have hthis := List.all_eq_true.mp hall c hc
  simp only [Bool.and_eq_true, Bool.not_eq_true', bne_iff_ne, ne_eq] at hthis
  obtain ⟨⟨⟨⟨⟨⟨⟨⟨⟨hspace, hquote⟩, hchar⟩, hr⟩, hb⟩, hdigit⟩, halpha⟩, hunder⟩, hascii⟩, hback⟩ :=
    hthis
  refine ⟨hspace, ?_⟩
  cases hpunct : punctuatorAt? (c :: cs) <;>
    simp [scan, hspace, hline, hblock, hquote, hchar, hr, hb, hdigit, halpha, hunder, hascii,
      hback, hpunct]

/-- No punctuator has a space in it, so the longest one ends before the next space. -/
theorem punctuatorAt?_append_space (cs rest : List Char) :
    punctuatorAt? (cs ++ ' ' :: rest) = punctuatorAt? cs := by
  have hspace : ∀ entry ∈ Kind.punctuators, ' ' ∉ entry.1.toList := by decide
  have hsame : ∀ p : List Char, ' ' ∉ p → ∀ cs : List Char,
      p.isPrefixOf (cs ++ ' ' :: rest) = p.isPrefixOf cs := by
    intro p
    induction p with
    | nil => exact fun _ _ => rfl
    | cons c p ih =>
      intro hp cs
      obtain ⟨hc, hp⟩ := not_or.mp (mt List.mem_cons.mpr hp)
      cases cs with
      | nil => simp [List.isPrefixOf, Ne.symm hc]
      | cons d cs => simp [List.isPrefixOf, ih hp]
  have hfind : ∀ table : List (String × Kind), (∀ entry ∈ table, ' ' ∉ entry.1.toList) →
      (table.find? fun p => p.1.toList.isPrefixOf (cs ++ ' ' :: rest)) =
        table.find? fun p => p.1.toList.isPrefixOf cs := by
    intro table htable
    induction table with
    | nil => rfl
    | cons entry table ih =>
      rw [List.find?_cons, List.find?_cons, hsame _ (htable entry (by simp)) cs,
        ih fun entry' hentry' => htable entry' (by simp [hentry'])]
  rw [punctuatorAt?_eq_find?, punctuatorAt?_eq_find?, hfind _ hspace]

/-- A text that is read whole as a punctuator when it is alone. -/
def isOperatorWord (kind : Kind) (word : List Char) : Bool :=
  match word with
  | [] => false
  | c :: cs => operatorChars.contains c && cs.head? != some '/' && cs.head? != some '*' &&
    punctuatorAt? word = some (kind, word.length)

theorem isWord_of_isOperatorWord {kind : Kind} {word : List Char}
    (h : isOperatorWord kind word = true) : IsWord kind word := by
  cases word with
  | nil => cases h
  | cons c cs =>
    simp only [isOperatorWord, Bool.and_eq_true, bne_iff_ne, ne_eq, decide_eq_true_eq,
      List.contains_iff_mem] at h
    obtain ⟨⟨⟨hc, hline⟩, hblock⟩, hpunct⟩ := h
    refine ⟨c, cs, rfl, (scan_of_mem_operatorChars hc hline hblock []).1,
      fun before rest _ hrest => ?_⟩
    have happend : punctuatorAt? (c :: (cs ++ rest)) = punctuatorAt? (c :: cs) := by
      rcases hrest with rfl | ⟨more, rfl⟩
      · rw [List.append_nil]
      · exact punctuatorAt?_append_space (c :: cs) more
    have hhead : ∀ d, d ≠ ' ' → cs.head? ≠ some d → (cs ++ rest).head? ≠ some d := by
      intro d hd hne
      rcases hrest with rfl | ⟨more, rfl⟩
      · rwa [List.append_nil]
      · rw [head?_append_space]
        cases cs with
        | nil => simpa using Ne.symm hd
        | cons e cs => exact hne
    rw [(scan_of_mem_operatorChars hc (hhead '/' (by decide) hline) (hhead '*' (by decide) hblock)
      before).2, happend, hpunct]
    rfl

/-! ## Items -/

/-- A word and what is behind it. -/
theorem IsWord.itemsFrom_append {kind : Kind} {word : List Char} (h : IsWord kind word)
    (before : List Char) (hbefore : isAfterPoint before = false) {rest : List Char}
    (hrest : IsGap rest) (start : Nat) : itemsFrom before start [] (word ++ rest) =
      .ok ⟨kind, word, start⟩ ::
        itemsFrom (word.reverse ++ before) (start + Text.byteSize word) [] rest := by
  obtain ⟨c, cs, rfl, -, hscan⟩ := h
  rw [List.cons_append, itemsFrom, hscan before rest hbefore hrest, itemsFrom_eq_append]
  simp [Reading.ok]

/-- A space in front of a word. -/
theorem IsWord.itemsFrom_space {kind : Kind} {word : List Char} (h : IsWord kind word)
    (before : List Char) (start : Nat) (rest : List Char) :
    itemsFrom before start [] (' ' :: (word ++ rest)) = .ok ⟨.whitespace, [' '], start⟩ ::
      itemsFrom (' ' :: before) (start + Text.byteSize [' ']) [] (word ++ rest) := by
  obtain ⟨c, cs, rfl, hc, -⟩ := h
  have hscan : scan before ' ' (c :: (cs ++ rest)) = .ok .whitespace 0 := by
    have hspace : isSpace ' ' = true := by decide
    simp [scan, hspace, hc]
  rw [List.cons_append, itemsFrom, hscan, itemsFrom_eq_append]
  simp [Reading.ok]

end Lexeme

namespace TokenStream

/-- A reader behind the text `before`, with these tokens and no trivia that wait. -/
def Reader.behind (before : List Char) (tokens : List Token) : Reader :=
  ⟨Cursor.advance {} before, Text.byteSize before, tokens.reverse, []⟩

/-- The token of a word behind the text `before` and a space. -/
def spacedToken (before : List Char) (kind : Kind) (word : List Char) : Token where
  kind := kind
  text := String.ofList word
  range := ⟨Text.byteSize (before ++ [' ']), Text.byteSize (before ++ ' ' :: word)⟩
  position := (Cursor.advance {} (before ++ [' '])).position
  trivia := [⟨.whitespace, " ", ⟨Text.byteSize before, Text.byteSize (before ++ [' '])⟩,
    (Cursor.advance {} before).position⟩]

/-- The tokens of words behind the text `before`, each with a space in front of it, and of the
end of the text. -/
def spacedTokens (before : List Char) : List (Kind × List Char) → List Token
  | [] => [⟨.eof, "", ⟨Text.byteSize before, Text.byteSize before⟩,
      (Cursor.advance {} before).position, []⟩]
  | w :: ws => spacedToken before w.1 w.2 :: spacedTokens (before ++ ' ' :: w.2) ws

/-- The text of some words, with a space in front of each. -/
def spacedText (words : List (Kind × List Char)) : List Char := words.flatMap fun w => ' ' :: w.2

theorem isGap_spacedText (words : List (Kind × List Char)) : Lexeme.IsGap (spacedText words) := by
  cases words with
  | nil => exact .inl rfl
  | cons w words => exact .inr ⟨_, rfl⟩

/-- A space and a word make one token more. -/
theorem Reader.push_spaced {kind : Kind} (hkind : TriviaKind.ofKind? kind = none)
    (before word : List Char) (tokens : List Token) :
    ((Reader.behind before tokens).push ⟨.whitespace, [' '], Text.byteSize before⟩).push
        ⟨kind, word, Text.byteSize (before ++ [' '])⟩ =
      .behind (before ++ ' ' :: word) (tokens ++ [spacedToken before kind word]) := by
  have hspace : TriviaKind.ofKind? .whitespace = some .whitespace := rfl
  have hword : before ++ ' ' :: word = (before ++ [' ']) ++ word := by simp
  simp only [push, behind, hkind, hspace, spacedToken, Lexeme.range, hword, Cursor.advance,
    List.foldl_append, List.reverse_append, List.reverse_cons, List.reverse_nil, List.nil_append,
    Text.byteSize_append, List.singleton_append]

/-- Words behind a text, each with a space in front of it. -/
theorem ofItems_words (words : List (Kind × List Char))
    (h : ∀ w ∈ words, Lexeme.IsWord w.1 w.2 ∧ TriviaKind.ofKind? w.1 = none) :
    ∀ before tokens, ofItems (.behind before tokens)
        (Lexeme.itemsFrom before.reverse (Text.byteSize before) [] (spacedText words)) =
      .ok ⟨(tokens ++ spacedTokens before words).toArray⟩ := by
  induction words with
  | nil =>
    intro before tokens
    simp [spacedText, Lexeme.itemsFrom, ofItems, Reader.finish, Reader.behind, spacedTokens]
  | cons w words ih =>
    intro before tokens
    obtain ⟨hword, hkind⟩ := h w (by simp)
    have hitems := hword.itemsFrom_append (' ' :: before.reverse) rfl
      (isGap_spacedText words)
      (Text.byteSize before + Text.byteSize [' '])
    have hrest := ih (fun w' hw' => h w' (by simp [hw'])) (before ++ ' ' :: w.2)
      (tokens ++ [spacedToken before w.1 w.2])
    have hbefore : w.2.reverse ++ ' ' :: before.reverse = (before ++ ' ' :: w.2).reverse := by
      simp
    have hstart : Text.byteSize (before ++ [' ']) + Text.byteSize w.2 =
        Text.byteSize (before ++ ' ' :: w.2) := by
      rw [← Text.byteSize_append, List.append_assoc, List.singleton_append]
    rw [show spacedText (w :: words) = ' ' :: (w.2 ++ spacedText words) from rfl,
      hword.itemsFrom_space, hitems, ofItems, ofItems, ← Text.byteSize_append,
      Reader.push_spaced hkind, hbefore, hstart, hrest, spacedTokens, List.append_assoc,
      List.singleton_append]

/-- Only a number sign begins the mark of an interpreter. -/
theorem shebangSize?_eq_none {text : List Char} (h : text.head? ≠ some '#') :
    Lexeme.shebangSize? text = none := by
  unfold Lexeme.shebangSize?
  split
  · exact absurd rfl h
  · rfl

/-- **A text of words has the tokens of the words.** -/
theorem ofText_words {first : Kind × List Char} {words : List (Kind × List Char)}
    (h : ∀ w ∈ first :: words, Lexeme.IsWord w.1 w.2 ∧ TriviaKind.ofKind? w.1 = none)
    (hfirst : first.2.head? ≠ some '#') :
    ofText (first.2 ++ spacedText words) = .ok ⟨(⟨first.1, String.ofList first.2,
      ⟨0, Text.byteSize first.2⟩, {}, []⟩ :: spacedTokens first.2 words).toArray⟩ := by
  obtain ⟨hword, hkind⟩ := h first (by simp)
  have hplain : Lexeme.shebangSize? (first.2 ++ spacedText words) = none := by
    obtain ⟨c, cs, heq, -⟩ := hword
    rw [heq] at hfirst ⊢
    exact shebangSize?_eq_none hfirst
  have hitems := hword.itemsFrom_append [] rfl (isGap_spacedText words) 0
  have hpush : ({} : Reader).push ⟨first.1, first.2, 0⟩ = .behind first.2
      [⟨first.1, String.ofList first.2, ⟨0, Text.byteSize first.2⟩, {}, []⟩] := by
    simp [Reader.push, Reader.behind, hkind, Lexeme.range]
  have hrest := ofItems_words words (fun w hw => h w (by simp [hw])) first.2
    [⟨first.1, String.ofList first.2, ⟨0, Text.byteSize first.2⟩, {}, []⟩]
  rw [ofText, Lexeme.items, hplain]
  simp only [hitems, ofItems, hpush]
  rw [List.append_nil, Nat.zero_add, hrest, List.singleton_append]

end TokenStream
end Packrat
