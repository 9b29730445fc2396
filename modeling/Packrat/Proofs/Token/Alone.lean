/-
# Tokens read alone

The text of a token, read as a text of its own, has that token and nothing else
(`TokenStream.tokens_stand_alone`):

| of the text of a token | is |
| --- | --- |
| the first token | of the same kind and text, from byte 0 on, without trivia |
| the only other | `eof`, without trivia |

So nothing has to be known of where a token came from to read it once more, not even for a number
behind a point, or for a lifetime that is one only because no quote is behind it.
-/

import Packrat.Proofs.Lexeme.Alone
import Packrat.Proofs.Token.Position
import Packrat.Proofs.Token.Spaced

namespace Packrat
namespace Lexeme

variable {kind : Kind} {text : List Char}

/-- What a recogniser has found is the only item of its own text. -/
theorem IsScanned.itemsFrom_alone (h : IsScanned kind text)
    (hkind : TriviaKind.ofKind? kind = none) :
    itemsFrom [] 0 [] text = [.ok ⟨kind, text, 0⟩] := by
  obtain ⟨before, c, cs, hresult, rfl⟩ := h
  have halone := scan_alone hresult hkind
  rw [itemsFrom_of_ok (halone ▸ hresult), halone, List.take_take, Nat.min_self,
    List.drop_eq_nil_of_le (List.length_take_le _ _), itemsFrom]
  rfl

/-- No token begins like an interpreter line: a number sign is a token of one character. -/
theorem IsScanned.shebangSize?_eq_none (h : IsScanned kind text) : shebangSize? text = none := by
  have htable : ∀ entry ∈ Kind.punctuators, shebangSize? entry.1.toList = none := by
    decide
  obtain ⟨before, c, cs, hresult, rfl⟩ := h
  by_cases hc : c = '#'
  · subst hc
    cases hpunct : punctuatorAt? ('#' :: cs) with
    | none => simp [scan, isSpace, Text.isAscii, hpunct, Reading.fault] at hresult
    | some found =>
      obtain ⟨kind', n⟩ := found
      have hmore : (scan before '#' cs).more = n - 1 := by
        simp [scan, isSpace, Text.isAscii, hpunct, Reading.ok]
      have hmem := mem_punctuators_of_punctuatorAt? (punctuator_alone hpunct)
      have hplain := htable _ hmem
      cases n with
      | zero => exact absurd (punctuators_proper _ hmem).1 (by simp)
      | succ n =>
        rw [hmore, Nat.add_sub_cancel]
        simpa [List.take_take] using hplain
  · exact TokenStream.shebangSize?_eq_none (by simpa using hc)

end Lexeme

namespace TokenStream

variable {text : List Char} {s : TokenStream}

/-- The stream of a text that is one token. -/
def single (kind : Kind) (text : List Char) : TokenStream where
  tokens := #[⟨kind, String.ofList text, ⟨0, Text.byteSize text⟩, {}, []⟩,
    ⟨.eof, "", ⟨Text.byteSize text, Text.byteSize text⟩, (Cursor.advance {} text).position, []⟩]

/-- **A token means the same on its own.** -/
theorem tokens_stand_alone (hs : ofText text = .ok s) {t : Token} (ht : t ∈ s.tokens)
    (hkind : t.kind ≠ .eof) : ofText t.text.toList = .ok (single t.kind t.text.toList) := by
  obtain ⟨ts, eof, htokens, heof, -, hall⟩ := ofText_tokens hs
  have hmem : t ∈ ts := by
    have hlist : t ∈ ts ++ [eof] := htokens ▸ Array.mem_def.mp ht
    refine (List.mem_append.mp hlist).resolve_right fun hlast => ?_
    rw [List.mem_singleton.mp hlast] at hkind
    exact hkind heof
  obtain ⟨hnone, hscanned⟩ := hall t hmem
  rw [ofText, Lexeme.items_of_none (hscanned.shebangSize?_eq_none),
    hscanned.itemsFrom_alone hnone]
  simp [ofItems, Reader.push, Reader.finish, hnone, single, Lexeme.range]

/-- Tokens that depend on what is around them: a number behind a point, a lifetime, words that
begin like a raw string, and a point that the number in front of it does not take. -/
def crowdedText : List Char := "t.0.1 'a r#x br##\"q\"#\"##1..2".toList

/-- The conditions can be met. -/
theorem tokens_stand_alone_crowded : ∃ s, ofText crowdedText = .ok s ∧ ∃ t ∈ s.tokens,
    t.range = ⟨2, 3⟩ ∧ t.kind ≠ .eof ∧
    ofText t.text.toList = .ok (single .intNumber ['0']) := by
  obtain ⟨s, hs, hany⟩ := exists_of_any crowdedText (fun s => s.tokens.any fun t =>
    t.range = ⟨2, 3⟩ && t.kind = .intNumber && t.text = "0") (by decide +kernel)
  obtain ⟨i, hi, ht⟩ := Array.any_eq_true.mp hany
  simp only [Bool.and_eq_true, decide_eq_true_eq] at ht
  have hkind : s.tokens[i].kind ≠ .eof := by rw [ht.1.2]; decide
  have halone := tokens_stand_alone hs (Array.getElem_mem hi) hkind
  rw [ht.1.2, ht.2] at halone
  refine ⟨s, hs, s.tokens[i], Array.getElem_mem hi, ht.1.1, hkind, ?_⟩
  rw [ht.2]
  exact halone

end TokenStream
end Packrat
