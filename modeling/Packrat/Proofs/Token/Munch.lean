/-
# Maximal munch

The tokens of a text are as long as they can be, and their kinds are those of the tables
(`TokenStream.maximal_munch`):

| token | has | and is not followed by |
| --- | --- | --- |
| punctuator | the kind that the table of punctuators gives its text | what makes a longer one of the table |
| keyword | the kind that the tables of keywords give its text | what continues identifiers |
| identifier | no keyword for its text | what continues identifiers |
| raw identifier, lifetime | | what continues identifiers |
| number that is not behind a point | | what continues identifiers |

Each of these is a fact about the recogniser of the place where the token was read
(`TokenStream.exists_place`).  That of numbers is one about the next place as well: what a number
may leave behind it begins nothing, and in a text that has a stream there is no such place
(`TokenStream.exists_result`).
-/

import Packrat.Proofs.Lexeme.Munch
import Packrat.Proofs.Lexeme.Reached
import Packrat.Proofs.Token.Position

namespace Packrat
namespace Lexeme

variable {text pre : List Char}

/-- A number that is read as one behind a point is behind a point. -/
theorem getLast?_of_isAfterPoint (h : isAfterPoint (seenBehind text pre) = true) :
    pre.getLast? = some '.' := by
  have hhead : (seenBehind text pre).head? = some '.' := by
    unfold isAfterPoint at h
    split at h
    · cases h
    · next hseen => rw [hseen]; rfl
    · cases h
  rw [seenBehind, List.head?_reverse, List.getLast?_drop] at hhead
  split at hhead
  · cases hhead
  · exact hhead

/-- Where a lexeme is read, the recogniser has found it. -/
theorem itemAt_eq_ok {before cs : List Char} {start : Nat} {c : Char} {l : Lexeme}
    (h : itemAt before start c cs = .ok l) : (scan before c cs).result = .ok l.kind ∧
      l.text = c :: cs.take (scan before c cs).more ∧ l.start = start := by
  unfold itemAt at h
  split at h
  · next kind hresult =>
    cases h
    exact ⟨hresult, rfl, rfl⟩
  · cases h

end Lexeme

/-- The token has its kind from the tables and is as long as it can be, with these characters
before it and behind it. -/
structure Token.IsMunched (before : List Char) (t : Token) (behind : List Char) : Prop where
  punctuator : t.kind.isPunctuator = true → Kind.punctuator? t.text = some t.kind
  longest : t.kind.isPunctuator = true → ∀ entry ∈ Kind.punctuators,
    entry.1.toList <+: t.text.toList ++ behind → entry.1.length ≤ t.text.length
  keyword : t.kind.isKeyword = true → Kind.keyword? t.text = some t.kind
  ident : t.kind = .ident → Kind.keyword? t.text = none
  word : t.kind.isKeyword = true ∨ t.kind = .ident ∨ t.kind = .rawIdent ∨ t.kind = .lifetime →
    ∀ d ∈ behind.head?, Text.isIdContinue d = false
  number : t.kind = .intNumber ∨ t.kind = .floatNumber → before.getLast? ≠ some '.' →
    ∀ d ∈ behind.head?, Text.isIdContinue d = false

namespace TokenStream

open Lexeme

variable {text pre : List Char} {s : TokenStream} {t : Token}

/-- A token that has been read was a lexeme. -/
theorem Reader.exists_lexeme_of_mem {ls : List Lexeme} : ∀ {r : Reader},
    t ∈ (ls.foldl Reader.push r).tokens → t ∈ r.tokens ∨ ∃ l ∈ ls,
      TriviaKind.ofKind? l.kind = none ∧
      t.kind = l.kind ∧ t.text = String.ofList l.text ∧ t.range = l.range := by
  induction ls with
  | nil => exact fun h => .inl h
  | cons l ls ih =>
    intro r h
    rcases ih h with hpush | ⟨l', hl', hfacts⟩
    · unfold Reader.push at hpush
      cases hkind : TriviaKind.ofKind? l.kind with
      | some kind =>
        rw [hkind] at hpush
        exact .inl hpush
      | none =>
        rw [hkind] at hpush
        rcases List.mem_cons.mp hpush with rfl | hold
        · exact .inr ⟨l, List.mem_cons_self, hkind, rfl, rfl, rfl⟩
        · exact .inl hold
    · exact .inr ⟨l', List.mem_cons_of_mem _ hl', hfacts⟩

/-- **A token was read at a place**, or it is the end of the text. -/
theorem exists_place (hs : ofText text = .ok s) (ht : t ∈ s.tokens) :
    (t.kind = .eof ∧ t.text = "" ∧ t.range = ⟨Text.byteSize text, Text.byteSize text⟩) ∨
    ∃ pre c cs, Reaches text pre (c :: cs) ∧
      (scan (seenBehind text pre) c cs).result = .ok t.kind ∧
      t.text.toList = c :: cs.take (scan (seenBehind text pre) c cs).more ∧
      t.range = ⟨Text.byteSize pre, Text.byteSize pre + Text.byteSize t.text.toList⟩ := by
  obtain ⟨ls, hitems, rfl⟩ := ofItems_eq_ok {} hs
  have hmem : t ∈ (ls.foldl Reader.push {}).finish.tokens.toList := Array.mem_toList_iff.mpr ht
  rw [show (ls.foldl Reader.push {}).finish.tokens.toList = _ from List.reverse_cons] at hmem
  rcases List.mem_append.mp hmem with hmem | hlast
  · rcases Reader.exists_lexeme_of_mem (List.mem_reverse.mp hmem) with
      hnone | ⟨l, hl, hkind, htkind, htext, hrange⟩
    · cases hnone
    · have hitem : .ok l ∈ items text := hitems ▸ List.mem_map_of_mem hl
      rcases exists_reaches hitem with hline | ⟨pre, c, cs, hplace, hat⟩
      · -- the interpreter line is no token
        obtain ⟨n, -, heq⟩ := List.mem_map.mp hline
        cases heq
        cases hkind
      · obtain ⟨hresult, hread, hstart⟩ := itemAt_eq_ok hat.symm
        have htoList : t.text.toList = l.text := by rw [htext, String.toList_ofList]
        refine .inr ⟨pre, c, cs, hplace, by rw [htkind, hresult], by rw [htoList, hread], ?_⟩
        rw [hrange, htoList, Lexeme.range, hstart]
  · obtain rfl := List.mem_singleton.mp hlast
    have hstart : ({} : Reader).IsAt [] := ⟨rfl, rfl⟩
    have hoffset := (hstart.foldl (inRow_items hitems)).1.offset
    rw [(textOf_items hitems).1, List.nil_append] at hoffset
    exact .inl ⟨rfl, rfl, by rw [hoffset]⟩

/-- In a text that has a stream, a lexeme is read at each place. -/
theorem exists_result (hs : ofText text = .ok s) {c : Char} {cs : List Char}
    (h : Reaches text pre (c :: cs)) :
    ∃ kind, (scan (seenBehind text pre) c cs).result = .ok kind := by
  obtain ⟨ls, hitems, -⟩ := ofItems_eq_ok {} hs
  obtain ⟨done, more, hplace⟩ := h.exists_items
  have hmem : itemAt (seenBehind text pre) (Text.byteSize pre) c cs ∈ ls.map Except.ok := by
    rw [← hitems, hplace]
    exact List.mem_append_right _ List.mem_cons_self
  obtain ⟨l, -, hl⟩ := List.mem_map.mp hmem
  exact ⟨l.kind, (itemAt_eq_ok hl.symm).1⟩

/-- What is left behind a number of a stream does not continue it. -/
theorem not_isIdContinue_of_endsNumber (hs : ofText text = .ok s) {rest : List Char}
    (h : Reaches text pre rest) (hends : EndsNumber rest) :
    ∀ d ∈ rest.head?, Text.isIdContinue d = false := by
  intro d hd
  refine Bool.eq_false_iff.mpr fun hname => ?_
  obtain ⟨hascii, hstart⟩ := hends d hd hname
  obtain ⟨more, rfl⟩ := List.head?_eq_some_iff.mp hd
  obtain ⟨kind, hresult⟩ := exists_result hs h
  rw [scan_of_loose hname hascii hstart] at hresult
  cases hresult

/-- **Maximal munch.**  Each token of a text that has a stream stands in the text at its range,
has the kind that the tables give to its text, and is as long as it can be. -/
theorem maximal_munch (hs : ofText text = .ok s) (ht : t ∈ s.tokens) :
    ∃ before behind, text = before ++ t.text.toList ++ behind ∧
      t.range = ⟨Text.byteSize before, Text.byteSize before + Text.byteSize t.text.toList⟩ ∧
      t.IsMunched before behind := by
  rcases exists_place hs ht with ⟨hkind, hempty, hrange⟩ | ⟨pre, c, cs, hplace, hresult, htext, hrange⟩
  · refine ⟨text, [], by simp [hempty], by simp [hempty, hrange, Text.byteSize], ?_⟩
    obtain ⟨kind, text, range, position, trivia⟩ := t
    cases hkind
    exact {
      punctuator := by rintro ⟨⟩
      longest := by rintro ⟨⟩
      keyword := by rintro ⟨⟩
      ident := by rintro ⟨⟩
      word := by rintro (⟨⟨⟩⟩ | ⟨⟨⟩⟩ | ⟨⟨⟩⟩ | ⟨⟨⟩⟩)
      number := by rintro (⟨⟨⟩⟩ | ⟨⟨⟩⟩) }
  · have hmunched := (scan_takes (seenBehind text pre) c cs _ hresult).isMunched
    have hnext := hplace.step
    rw [← htext] at hmunched hnext
    refine ⟨pre, _, hnext.append_eq.symm, hrange, ?_⟩
    exact {
      punctuator := by
        have htable : ∀ entry ∈ Kind.punctuators, Kind.punctuator? entry.1 = some entry.2 := by
          decide +kernel
        intro hkind
        have hentry := htable _ (hmunched.mark hkind).1
        rwa [String.ofList_toList] at hentry
      longest := by
        rw [← String.length_toList]
        exact fun hkind => (hmunched.mark hkind).2
      keyword := by simpa only [String.ofList_toList] using hmunched.keyword
      ident := by simpa only [String.ofList_toList] using hmunched.ident
      word := hmunched.word
      number := by
        intro hkind hpoint
        refine not_isIdContinue_of_endsNumber hs hnext (hmunched.number hkind ?_)
        exact Bool.eq_false_iff.mpr fun hafter => hpoint (getLast?_of_isAfterPoint hafter) }

/-- A number behind a point with a name behind it, a keyword that goes on beyond ASCII, a number
with a suffix that does, a punctuator of three characters, and names that begin like literals. -/
def munchedText : List Char := "t.0é>>=fné..=1é 'aé r#fné b_".toList

/-- The conditions can be met, and a name may follow a number that is behind a point. -/
theorem maximal_munch_crowded : ∃ s, ofText munchedText = .ok s ∧ s.size = 12 ∧
    ∃ t ∈ s.tokens, t.kind = .intNumber ∧
      t.IsMunched ['t', '.'] "é>>=fné..=1é 'aé r#fné b_".toList := by
  obtain ⟨s, hs, hany⟩ := exists_of_any munchedText (fun s => s.size = 12 && s.tokens.any fun t =>
    t.kind = .intNumber && t.range = ⟨2, 3⟩ && t.text = "0") (by decide +kernel)
  obtain ⟨hsize, hany⟩ := Bool.and_eq_true_iff.mp hany
  obtain ⟨i, hi, ht⟩ := Array.any_eq_true.mp hany
  simp only [Bool.and_eq_true, decide_eq_true_eq] at ht
  obtain ⟨⟨hkind, hrange⟩, htext⟩ := ht
  obtain ⟨before, behind, hparts, hbefore, hmunched⟩ :=
    maximal_munch hs (Array.getElem_mem hi)
  refine ⟨s, hs, of_decide_eq_true hsize, s.tokens[i], Array.getElem_mem hi, hkind, ?_⟩
  -- the range says where the token stands
  have hstart : Text.byteSize ['t', '.'] = Text.byteSize before :=
    congrArg Range.start (hrange.symm.trans hbefore)
  have hsplit : ['t', '.'] ++ '0' :: "é>>=fné..=1é 'aé r#fné b_".toList = munchedText := rfl
  rw [htext, List.append_assoc, ← hsplit] at hparts
  obtain ⟨rfl, hbehind⟩ := Text.append_inj_of_byteSize hparts hstart
  obtain rfl := (List.cons_eq_cons.mp hbehind).2
  exact hmunched

end TokenStream
end Packrat
