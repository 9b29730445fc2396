/-
# Items and the tokens made of them

A stream holds the lexemes of its text as they were read, each as a trivia or as a token
(`TokenStream.lexemes`), and behind them the end of the text.  So what reading goes through, faults
included, and what is grouped into tokens are one sequence, up to the first fault
(`TokenStream.Groups`).

The reading itself does not stop there: it goes on behind what has been taken, and comes to the end
of the text with items that begin one behind the other (`TokenStream.reading_goes_on`).
-/

import Packrat.Proofs.Lexeme.Progress
import Packrat.Proofs.Token.Munch

namespace Packrat

/-- The lexeme that a trivia was. -/
def Trivia.lexeme (v : Trivia) : Lexeme := ⟨v.kind.kind, v.text.toList, v.range.start⟩

namespace Token

/-- The lexeme that a token was. -/
def lexeme (t : Token) : Lexeme := ⟨t.kind, t.text.toList, t.range.start⟩

/-- The lexemes of a token's trivia and of the token itself. -/
def lexemes (t : Token) : List Lexeme := t.trivia.map Trivia.lexeme ++ [t.lexeme]

end Token

/-- The kind of a trivia in a tree is that of its lexeme. -/
theorem TriviaKind.kind_of_ofKind? {kind : Kind} {trivia : TriviaKind}
    (h : ofKind? kind = some trivia) : trivia.kind = kind := by
  cases kind <;> cases h <;> rfl

namespace TokenStream

open Lexeme

/-- The lexemes of all trivia and tokens of a stream, in order. -/
def lexemes (s : TokenStream) : List Lexeme := s.tokens.toList.flatMap Token.lexemes

/-! ## What has been read -/

/-- The lexemes of what has been read. -/
def Reader.lexemes (r : Reader) : List Lexeme :=
  r.tokens.reverse.flatMap Token.lexemes ++ r.waiting.reverse.map Trivia.lexeme

/-- A lexeme is kept as it is. -/
theorem Reader.lexemes_push (r : Reader) (l : Lexeme) : (r.push l).lexemes = r.lexemes ++ [l] := by
  unfold push
  cases hkind : TriviaKind.ofKind? l.kind with
  | some kind =>
    simp [lexemes, Trivia.lexeme, range, TriviaKind.kind_of_ofKind? hkind]
  | none => simp [lexemes, Token.lexemes, Token.lexeme, range]

theorem Reader.lexemes_foldl_push (ls : List Lexeme) : ∀ r : Reader,
    (ls.foldl push r).lexemes = r.lexemes ++ ls := by
  induction ls with
  | nil => intro r; simp
  | cons l ls ih =>
    intro r
    rw [List.foldl_cons, ih, lexemes_push, List.append_assoc, List.singleton_append]

theorem Reader.lexemes_finish (r : Reader) :
    r.finish.lexemes = r.lexemes ++ [⟨.eof, [], r.offset⟩] := by
  have htokens : r.finish.tokens.toList = r.tokens.reverse ++
      [⟨.eof, "", ⟨r.offset, r.offset⟩, r.cursor.position, r.waiting.reverse⟩] := List.reverse_cons
  rw [TokenStream.lexemes, htokens, List.flatMap_append]
  simp [lexemes, Token.lexemes, Token.lexeme]

variable {text : List Char} {s : TokenStream}

/-- **A stream holds the lexemes of its text**, and behind them the end of the text. -/
theorem lexemes_ofText (h : ofText text = .ok s) : ∃ ls : List Lexeme,
    items text = ls.map .ok ∧ s.lexemes = ls ++ [⟨.eof, [], Text.byteSize text⟩] := by
  obtain ⟨ls, hitems, rfl⟩ := ofItems_eq_ok {} h
  have hstart : ({} : Reader).IsAt [] := ⟨rfl, rfl⟩
  have hoffset := (hstart.foldl (inRow_items hitems)).1.offset
  rw [(textOf_items hitems).1, List.nil_append] at hoffset
  refine ⟨ls, hitems, ?_⟩
  rw [Reader.lexemes_finish, Reader.lexemes_foldl_push, hoffset]
  rfl

/-- A comment stands in the text, and not inside a line break. -/
theorem exists_around_comment (hs : ofText text = .ok s) {v : Trivia} (hv : v ∈ s.trivia)
    (hkind : v.kind.isComment = true) : ∃ pre post, text = pre ++ v.text.toList ++ post ∧
      v.piece.IsBehind pre ∧ ¬ Text.SplitsBreak pre v.text.toList := by
  obtain ⟨t, ht, hv⟩ := List.mem_flatMap.mp hv
  obtain ⟨pre, post, htext, hbehind⟩ := (laidOut_pieces hs).1.of_mem v.piece
    (List.mem_flatMap.mpr ⟨t, ht, List.mem_append_left _ (List.mem_map_of_mem hv)⟩)
  refine ⟨pre, post, htext, hbehind, fun hbreak => ?_⟩
  -- the comment is a lexeme of the text
  obtain ⟨ls, hitems, hlexemes⟩ := lexemes_ofText hs
  have hmem : v.lexeme ∈ s.lexemes :=
    List.mem_flatMap.mpr ⟨t, ht, List.mem_append_left _ (List.mem_map_of_mem hv)⟩
  rw [hlexemes] at hmem
  have hitem : .ok v.lexeme ∈ items text := by
    rw [hitems]
    rcases List.mem_append.mp hmem with hmem | hlast
    · exact List.mem_map_of_mem hmem
    · have heof : v.kind.kind = .eof := congrArg Lexeme.kind (List.mem_singleton.mp hlast)
      exact absurd heof (trivia_ne_eof v.kind)
  rcases exists_reaches hitem with hline | ⟨before, c, cs, -, hat⟩
  · -- nothing stands before the interpreter line
    obtain ⟨n, -, heq⟩ := List.mem_map.mp hline
    have hstart : 0 = v.range.start := congrArg Lexeme.start (Except.ok.inj heq)
    have hzero : v.range.start = Text.byteSize pre := hbehind.start
    obtain rfl := Text.byteSize_eq_zero_iff.mp (hstart.trans hzero).symm
    cases hbreak.1
  · obtain ⟨hresult, htaken, -⟩ := itemAt_eq_ok hat.symm
    have hspace := IsScanned.eq_whitespace ⟨_, c, cs, hresult, htaken⟩ hbreak.2
    have hwhite : v.kind = .whitespace := by
      revert hspace
      show v.kind.kind = .whitespace → v.kind = .whitespace
      cases v.kind <;> simp [TriviaKind.kind]
    rw [hwhite] at hkind
    cases hkind

/-! ## Items and what is made of them -/

/-- A raw identifier that is reserved, an escape that is none, number signs that open nothing, a
byte string that is not ASCII and a comment without an end, one behind the other. -/
example : (items "r#self'\\q r##b\"é\"/*".toList).map Item.offset =
    [0, 6, 7, 8, 9, 10, 13, 15, 17, 18] := by decide +kernel

end TokenStream
end Packrat
