/-
# Punctuators in a row

Of punctuators that stand side by side the longest one is a token, and then the longest one of the
rest, whatever they are to mean.  So how brackets and ampersands are put together into tokens
depends on how many there are (`Token.closers`, `Token.ampersands`):

| text | tokens |
| --- | --- |
| `>` an even, an odd number of times | `>>` ...; `>>` ... `>` |
| the same before `=` | `>>` ... `>>=`; `>>` ... `>=` |
| `&` an even, an odd number of times | `&&` ...; `&&` ... `&` |

Behind the ampersands an identifier may stand, as none begins with a character that would make the
last punctuator longer.
-/

import Packrat.Proofs.Token.Alone

namespace Packrat
namespace Token

open Peg

/-! ## Tokens in a row -/

/-- The tokens of closing brackets, with an equals sign behind them or not. -/
def closers (before : Bool) : Nat → List Symbol
  | 0 => if before then [⟨.eq, "="⟩] else []
  | 1 => [if before then ⟨.gtEq, ">="⟩ else ⟨.gt, ">"⟩]
  | 2 => [if before then ⟨.shrEq, ">>="⟩ else ⟨.shr, ">>"⟩]
  | n + 3 => ⟨.shr, ">>"⟩ :: closers before (n + 1)

/-- The tokens of ampersands. -/
def ampersands : Nat → List Symbol
  | 0 => []
  | 1 => [⟨.amp, "&"⟩]
  | n + 2 => ⟨.ampAmp, "&&"⟩ :: ampersands n

/-- The tokens of a name and an opening bracket, again and again, and of a last name. -/
def openers : Nat → List Symbol
  | 0 => [⟨.ident, "u8"⟩]
  | n + 1 => ⟨.ident, "A"⟩ :: ⟨.lt, "<"⟩ :: openers n

theorem length_openers (n : Nat) : (openers n).length = 2 * n + 1 := by
  induction n with
  | zero => rfl
  | succ n ih =>
    rw [openers, List.length_cons, List.length_cons, ih]
    omega

end Token

namespace Lexeme

open Peg Token

/-! ## Lexemes in a row -/

/-- The text is cut into tokens of these kinds and texts and into trivia, wherever it stands. -/
def CutsInto (text : List Char) (symbols : List Symbol) : Prop :=
  ∀ before start, ∃ ls : List Lexeme, itemsFrom before start [] text = ls.map .ok ∧
    (ls.filter (·.isSignificant)).map Lexeme.symbol = symbols

theorem CutsInto.nil : CutsInto [] [] := fun before start => ⟨[], by simp [itemsFrom], rfl⟩

/-- A lexeme before others. -/
theorem itemsFrom_of_scan {kind : Kind} {before : List Char} {c : Char} {w rest : List Char}
    (hscan : scan before c (w ++ rest) = .ok kind w.length) (start : Nat) :
    itemsFrom before start [] (c :: w ++ rest) = .ok ⟨kind, c :: w, start⟩ ::
      itemsFrom ((c :: w).reverse ++ before) (start + Text.byteSize (c :: w)) [] rest := by
  have hresult : (scan before c (w ++ rest)).result = .ok kind := by rw [hscan]; rfl
  have hmore : (scan before c (w ++ rest)).more = w.length := by rw [hscan]; rfl
  rw [List.cons_append, itemsFrom_of_ok hresult, hmore, List.take_left, List.drop_left]

/-- A token before others. -/
theorem CutsInto.token {kind : Kind} {c : Char} {w rest : List Char} {symbols : List Symbol}
    (hkind : TriviaKind.ofKind? kind = none)
    (hscan : ∀ before, scan before c (w ++ rest) = .ok kind w.length)
    (hrest : CutsInto rest symbols) :
    CutsInto (c :: w ++ rest) (⟨kind, String.ofList (c :: w)⟩ :: symbols) := by
  intro before start
  obtain ⟨ls, hls, rfl⟩ := hrest ((c :: w).reverse ++ before) (start + Text.byteSize (c :: w))
  have hsignificant : (⟨kind, c :: w, start⟩ : Lexeme).isSignificant = true := by
    rw [Lexeme.isSignificant, hkind]
    rfl
  refine ⟨⟨kind, c :: w, start⟩ :: ls, ?_, ?_⟩
  · rw [itemsFrom_of_scan (hscan before), hls]
    rfl
  · rw [List.filter_cons, if_pos hsignificant]
    rfl

/-- A space before a token. -/
theorem CutsInto.space {c : Char} {rest : List Char} {symbols : List Symbol}
    (hc : isSpace c = false) (hrest : CutsInto (c :: rest) symbols) :
    CutsInto (' ' :: c :: rest) symbols := by
  intro before start
  obtain ⟨ls, hls, rfl⟩ := hrest (' ' :: before) (start + Text.byteSize [' '])
  have hscan : scan before ' ' (c :: rest) = .ok .whitespace 0 := by
    simp [scan, show isSpace ' ' = true from rfl, hc]
  refine ⟨⟨.whitespace, [' '], start⟩ :: ls, ?_, rfl⟩
  have hitems := itemsFrom_of_scan (w := []) hscan start
  rw [List.map_cons, ← hls]
  exact hitems

variable {c : Char} {rest : List Char} {symbols : List Symbol}

/-! ### Closing brackets -/

/-- Closing brackets, with an equals sign behind them or not, before a space or the end. -/
theorem cutsInto_closers (before : Bool) (hgap : IsGap rest) (hrest : CutsInto rest symbols) :
    ∀ n, CutsInto (List.replicate n '>' ++ ((if before then ['='] else []) ++ rest))
      (closers before n ++ symbols)
  | 0 => by
    cases before with
    | false => exact hrest
    | true =>
      refine .token rfl (c := '=') (w := []) (fun before => ?_) hrest
      rcases hgap with rfl | ⟨more, rfl⟩ <;> rfl
  | 1 => by
    cases before with
    | false =>
      refine .token rfl (c := '>') (w := []) (fun before => ?_) hrest
      rcases hgap with rfl | ⟨more, rfl⟩ <;> rfl
    | true =>
      refine .token rfl (c := '>') (w := ['=']) (fun before => ?_) hrest
      rcases hgap with rfl | ⟨more, rfl⟩ <;> rfl
  | 2 => by
    cases before with
    | false =>
      refine .token rfl (c := '>') (w := ['>']) (fun before => ?_) hrest
      rcases hgap with rfl | ⟨more, rfl⟩ <;> rfl
    | true =>
      refine .token rfl (c := '>') (w := ['>', '=']) (fun before => ?_) hrest
      rcases hgap with rfl | ⟨more, rfl⟩ <;> rfl
  | n + 3 =>
    .token rfl (c := '>') (w := ['>']) (fun _ => rfl) (cutsInto_closers before hgap hrest (n + 1))

/-- What may stand behind a name for it to end there. -/
def IsBehindName (rest : List Char) : Prop :=
  rest = [] ∨ ∃ more, rest = '>' :: more ∨ rest = '=' :: more

/-- Names with opening brackets, and a last name. -/
theorem cutsInto_openers (hend : IsBehindName rest) (hrest : CutsInto rest symbols) :
    ∀ n, CutsInto ((List.replicate n ['A', '<']).flatten ++ ('u' :: '8' :: rest))
      (openers n ++ symbols)
  | 0 => by
    refine .token rfl (c := 'u') (w := ['8']) (fun before => ?_) hrest
    rcases hend with rfl | ⟨more, rfl | rfl⟩ <;> rfl
  | n + 1 => by
    refine .token rfl (c := 'A') (w := []) (fun _ => rfl) ?_
    refine .token rfl (c := '<') (w := []) (fun before => ?_) (cutsInto_openers hend hrest n)
    cases n <;> rfl

/-! ### Ampersands -/

/-- An ampersand is a punctuator of its own before a character that makes it no longer. -/
theorem punctuatorAt?_ampersand (hamp : c ≠ '&') (heq : c ≠ '=') :
    punctuatorAt? ('&' :: c :: rest) = some (.amp, 1) := by
  have hnot : ('&' == c) = false ∧ ('=' == c) = false :=
    ⟨beq_eq_false_iff_ne.mpr (Ne.symm hamp), beq_eq_false_iff_ne.mpr (Ne.symm heq)⟩
  have hlength : "&".length = 1 := rfl
  simp [punctuatorAt?_eq_find?, Kind.punctuators, List.isPrefixOf, hnot, hlength]

/-- Ampersands before such a character. -/
theorem cutsInto_ampersands (hamp : c ≠ '&') (heq : c ≠ '=')
    (hrest : CutsInto (c :: rest) symbols) :
    ∀ n, CutsInto (List.replicate n '&' ++ c :: rest) (ampersands n ++ symbols)
  | 0 => hrest
  | 1 => by
    refine .token rfl (c := '&') (w := []) (fun before => ?_) hrest
    rw [scan_of_isBracketOrAmp rfl, List.nil_append, punctuatorAt?_ampersand hamp heq]
    rfl
  | n + 2 =>
    .token rfl (c := '&') (w := ['&']) (fun _ => rfl) (cutsInto_ampersands hamp heq hrest n)

/-! ### Identifiers -/

/-- A word that is an identifier, raw or not. -/
def IsIdentifier (kind : Kind) (word : List Char) : Prop :=
  (kind = .ident ∨ kind = .rawIdent) ∧ IsScanned kind word

/-- No punctuator is an identifier. -/
theorem punctuatorAt?_ne_identifier {cs : List Char} {kind : Kind} {n : Nat}
    (h : punctuatorAt? cs = some (kind, n)) : kind ≠ .ident ∧ kind ≠ .rawIdent := by
  have hall : ∀ entry ∈ Kind.punctuators, entry.2 ≠ .ident ∧ entry.2 ≠ .rawIdent := by
    decide
  exact hall _ (mem_punctuators_of_punctuatorAt? h)

/-- **An identifier begins with no digit and none of these punctuators.** -/
theorem IsIdentifier.head {kind : Kind} {cs : List Char} (h : IsIdentifier kind (c :: cs)) :
    c.isDigit = false ∧ isBracketOrAmp c = false ∧ c ≠ '=' ∧ c ≠ '#' := by
  obtain ⟨hkind, before, c', rest, hresult, htext⟩ := h
  obtain ⟨rfl, -⟩ := List.cons_eq_cons.mp htext
  have htable : ∀ found : Option (Kind × Nat), punctuatorAt? (c :: rest) = found →
      scan before c rest = (found.map fun found =>
        Reading.ok found.1 (found.2 - 1)).getD (.fault .unexpectedChar 0) → False := by
    rintro (_ | ⟨kind', n⟩) hpunct hscan <;> rw [hscan] at hresult <;> cases hresult
    have hne := punctuatorAt?_ne_identifier hpunct
    exact hkind.elim hne.1 hne.2
  refine ⟨?_, ?_, ?_, ?_⟩
  · by_contra hdigit
    rw [(scan_of_isDigit (by simpa using hdigit) before rest).2] at hresult
    obtain ⟨n, hsize, -⟩ := Reading.literal_eq_ok hresult
    rcases numberSize_kind hsize with rfl | rfl <;> rcases hkind with hkind | hkind <;> cases hkind
  · by_contra hbracket
    exact htable _ rfl (scan_of_isBracketOrAmp (by simpa using hbracket) before rest)
  · rintro rfl
    refine htable _ rfl ?_
    cases hpunct : punctuatorAt? ('=' :: rest) <;> simp [scan, isSpace, Text.isAscii, hpunct]
  · rintro rfl
    refine htable _ rfl ?_
    cases hpunct : punctuatorAt? ('#' :: rest) <;> simp [scan, isSpace, Text.isAscii, hpunct]

/-- What is before it is looked at only where a number begins. -/
theorem scan_of_not_isDigit (hc : c.isDigit = false) (before before' cs : List Char) :
    scan before c cs = scan before' c cs := by
  simp only [scan, hc, Bool.false_eq_true, if_false]

/-- An identifier at the end of a text. -/
theorem IsIdentifier.cutsInto {kind : Kind} {word : List Char} (h : IsIdentifier kind word) :
    CutsInto word [⟨kind, String.ofList word⟩] := by
  have hnone : TriviaKind.ofKind? kind = none := by rcases h.1 with rfl | rfl <;> rfl
  obtain ⟨before, c, cs, hresult, rfl⟩ := h.2
  intro before' start
  have halone : scan before' c (cs.take (scan before c cs).more) = scan before c cs :=
    (scan_of_not_isDigit h.head.1 before' [] _).trans (scan_alone hresult hnone)
  refine ⟨[⟨kind, c :: cs.take (scan before c cs).more, start⟩], ?_, ?_⟩
  · rw [itemsFrom_of_ok (halone ▸ hresult), halone, List.take_take, Nat.min_self,
      List.drop_eq_nil_of_le (List.length_take_le _ _), itemsFrom]
    rfl
  · simp [Lexeme.isSignificant, Lexeme.symbol, hnone]

end Lexeme

namespace TokenStream

open Lexeme Peg

/-! ## Streams -/

/-- Lexemes without a fault among them make a stream. -/
theorem ofItems_map_ok (ls : List Lexeme) : ∀ r : Reader,
    ofItems r (ls.map .ok) = .ok (ls.foldl Reader.push r).finish := by
  induction ls with
  | nil => exact fun _ => rfl
  | cons l ls ih => exact fun r => ih (r.push l)

/-- **The tokens of a text** that is cut into these lexemes. -/
theorem exists_of_cutsInto {text : List Char} {symbols : List Symbol} (h : CutsInto text symbols)
    (hplain : text.head? ≠ some '#') : ∃ s, ofText text = .ok s ∧
      s.tokens.toList.map Token.symbol = symbols ++ [⟨.eof, ""⟩] := by
  obtain ⟨ls, hitems, rfl⟩ := h [] 0
  refine ⟨(ls.foldl Reader.push {}).finish, ?_, ?_⟩
  · rw [ofText, items_of_none (shebangSize?_eq_none hplain), hitems, ofItems_map_ok]
  · obtain ⟨eof, htokens, hkind, htext⟩ := (ls.foldl Reader.push {}).tokens_finish
    have heof : eof.symbol = ⟨.eof, ""⟩ := by rw [Token.symbol, hkind, htext]
    rw [htokens, List.map_append, Reader.symbols_foldl_push, List.map_singleton, heof]
    rfl

end TokenStream
end Packrat
