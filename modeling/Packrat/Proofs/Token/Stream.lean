/-
# What token streams are made of

A stream is what is left of a text that has no fault: its tokens are the significant
lexemes, in order, and an empty `eof` behind them (`ofText_tokens`); with the trivia in front
of them their texts are the text (`text_ofText`).
-/

import Packrat.Peg.Match
import Packrat.Proofs.Lexeme.Scan
import Packrat.Token.Stream

namespace Packrat

/-- A lexeme that becomes a token. -/
def Lexeme.isSignificant (l : Lexeme) : Bool := (TriviaKind.ofKind? l.kind).isNone

/-- What the rules see of a lexeme. -/
def Lexeme.symbol (l : Lexeme) : Peg.Symbol := ⟨l.kind, String.ofList l.text⟩

/-- What the rules see of a token. -/
def Token.symbol (t : Token) : Peg.Symbol := ⟨t.kind, t.text⟩

namespace TokenStream

/-- A stream comes of lexemes only. -/
theorem ofItems_eq_ok {items : List Lexeme.Item} {s : TokenStream} :
    ∀ r : Reader, ofItems r items = .ok s →
      ∃ ls : List Lexeme, items = ls.map .ok ∧ s = (ls.foldl Reader.push r).finish := by
  induction items with
  | nil =>
    intro r h
    cases h
    exact ⟨[], rfl, rfl⟩
  | cons item items ih =>
    intro r h
    cases item with
    | error f => cases h
    | ok l =>
      obtain ⟨ls, rfl, hs⟩ := ih (r.push l) h
      exact ⟨l :: ls, rfl, hs⟩

/-- The text of what has been read. -/
def Reader.text (r : Reader) : String :=
  String.join (r.tokens.reverse.map Token.fullText) ++ String.join (r.waiting.reverse.map (·.text))

theorem Reader.text_push (r : Reader) (l : Lexeme) :
    (r.push l).text = r.text ++ String.ofList l.text := by
  unfold push
  cases TriviaKind.ofKind? l.kind with
  | some kind => simp [text, String.join_append, String.append_assoc]
  | none => simp [text, Token.fullText, String.join_append, String.append_assoc]

theorem Reader.text_foldl_push (ls : List Lexeme) : ∀ r : Reader,
    (ls.foldl push r).text = r.text ++ String.ofList (Lexeme.textOf ls) := by
  induction ls with
  | nil => intro r; simp
  | cons l ls ih =>
    intro r
    rw [List.foldl_cons, ih, text_push, Lexeme.textOf_cons, String.ofList_append,
      String.append_assoc]

theorem Reader.text_finish (r : Reader) : r.finish.text = r.text := by
  simp [finish, TokenStream.text, Reader.text, Token.fullText, String.join_append]

/-- Closing a stream puts `eof` behind the tokens. -/
theorem Reader.tokens_finish (r : Reader) : ∃ eof : Token,
    r.finish.tokens.toList = r.tokens.reverse ++ [eof] ∧ eof.kind = .eof ∧ eof.text = "" :=
  ⟨_, List.reverse_cons, rfl, rfl⟩

theorem Reader.symbols_push (r : Reader) (l : Lexeme) :
    (r.push l).tokens.reverse.map Token.symbol =
      r.tokens.reverse.map Token.symbol ++ if l.isSignificant then [l.symbol] else [] := by
  unfold push Lexeme.isSignificant
  cases TriviaKind.ofKind? l.kind with
  | some kind => simp
  | none => simp [Token.symbol, Lexeme.symbol]

theorem Reader.symbols_foldl_push (ls : List Lexeme) : ∀ r : Reader,
    (ls.foldl push r).tokens.reverse.map Token.symbol =
      r.tokens.reverse.map Token.symbol ++ (ls.filter (·.isSignificant)).map Lexeme.symbol := by
  induction ls with
  | nil => intro r; simp
  | cons l ls ih =>
    intro r
    rw [List.foldl_cons, ih, symbols_push, List.filter_cons, List.append_assoc]
    split <;> simp

variable {text : List Char} {s : TokenStream}

/-- **Reading a text loses nothing.** -/
theorem text_ofText (h : ofText text = .ok s) : s.text = String.ofList text := by
  obtain ⟨ls, hitems, rfl⟩ := ofItems_eq_ok {} h
  rw [Reader.text_finish, Reader.text_foldl_push, (Lexeme.textOf_items hitems).1]
  simp [Reader.text, String.join_nil]

/-- **The tokens of a text** are the significant lexemes, each as its recogniser found it, and
an empty `eof` behind them. -/
theorem ofText_tokens (h : ofText text = .ok s) : ∃ ts eof, s.tokens.toList = ts ++ [eof] ∧
    eof.kind = .eof ∧ eof.text = "" ∧
    ∀ t ∈ ts, TriviaKind.ofKind? t.kind = none ∧ Lexeme.IsScanned t.kind t.text.toList := by
  obtain ⟨ls, hitems, rfl⟩ := ofItems_eq_ok {} h
  have hall := (Lexeme.textOf_items hitems).2
  have hsymbols := Reader.symbols_foldl_push ls {}
  obtain ⟨eof, htokens, heof⟩ := (ls.foldl Reader.push {}).tokens_finish
  refine ⟨_, eof, htokens, heof.1, heof.2, fun t ht => ?_⟩
  have hmem : t.symbol ∈ (ls.filter (·.isSignificant)).map Lexeme.symbol := by
    have hmap := List.mem_map_of_mem (f := Token.symbol) ht
    rw [hsymbols] at hmap
    simpa using hmap
  obtain ⟨l, hl, heq⟩ := List.mem_map.mp hmem
  obtain ⟨hl, hsig⟩ := List.mem_filter.mp hl
  have hkind : l.kind = t.kind := congrArg Peg.Symbol.kind heq
  have htext : String.ofList l.text = t.text := congrArg Peg.Symbol.text heq
  have hnone : TriviaKind.ofKind? l.kind = none := by
    simpa [Lexeme.isSignificant] using hsig
  rw [← hkind, ← htext, String.toList_ofList]
  refine ⟨hnone, (hall l hl).resolve_left fun hshebang => ?_⟩
  rw [hshebang] at hnone
  cases hnone

end TokenStream
end Packrat
