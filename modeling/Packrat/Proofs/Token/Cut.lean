/-
# Tokens in pieces

A tree has every token of its stream, whole or cut into pieces (`Token.Carries`).  Only a few
punctuators can be cut: those that are longer than the bracket or ampersand with which they
begin (`Token.cuttable`).

| token | is cut into, at most |
| --- | --- |
| `&&`, `&=` | `&` and `&`, `=` |
| `<<`, `<=`, `<<=` | `<` and `<`, `=` |
| `>>`, `>=`, `>>=` | `>` and `>`, `=` |

What is left of such a token behind a piece is a punctuator again, and can be cut again if it
is long enough.  The leaves of a tree are said to cover tokens when the trivia of each stand
before what carries it (`Token.Covers`).
-/

import Packrat.Proofs.Language.Grammar
import Packrat.Proofs.Token.Stream

namespace Packrat

/-! ## Kinds -/

namespace Kind

/-- Trivia are of the kinds that lexemes are told apart by. -/
theorem isTrivia_eq (kind : Kind) : kind.isTrivia = (TriviaKind.ofKind? kind).isSome := by
  cases kind <;> rfl

theorem isTrivia_kind (kind : TriviaKind) : kind.kind.isTrivia = true := by
  cases kind <;> rfl

theorem isSignificant_iff {kind : Kind} :
    kind.isSignificant = true ↔ TriviaKind.ofKind? kind = none ∧ kind ≠ .eof := by
  rw [isSignificant, isTrivia_eq]
  cases TriviaKind.ofKind? kind <;> simp

/-- The kind of a punctuator is spelled as the punctuator is. -/
theorem spelling?_of_mem_punctuators {word : String} {kind : Kind}
    (h : (word, kind) ∈ punctuators) : kind.spelling? = some word := by
  have hall : ∀ entry ∈ punctuators, entry.2.spelling? = some entry.1 := by decide
  exact hall _ h

/-- The punctuator with a spelling is an entry of the table. -/
theorem mem_punctuators_of_punctuator? {word : String} {kind : Kind}
    (h : punctuator? word = some kind) : (word, kind) ∈ punctuators := by
  obtain ⟨entry, hfind, rfl⟩ := Option.map_eq_some_iff.mp h
  have hword : entry.1 = word := by simpa using List.find?_some hfind
  rw [← hword]
  exact List.mem_of_find?_eq_some hfind

/-- What has a spelling is significant. -/
theorem isSignificant_of_spelling? {word : String} {kind : Kind}
    (h : kind.spelling? = some word) : kind.isSignificant = true := by
  obtain ⟨entry, hfind, -⟩ := Option.map_eq_some_iff.mp h
  have hmem := List.mem_of_find?_eq_some hfind
  have hkind : entry.2 = kind := by simpa using List.find?_some hfind
  have hall : ∀ entry ∈ strictKeywords ++ reservedKeywords ++ punctuators,
      entry.2.isSignificant = true := by decide
  rw [← hkind]
  exact hall entry hmem

end Kind

namespace Token

/-! ## Cutting -/

/-- The tokens that can be cut. -/
def cuttable : List (String × Kind) :=
  [("&&", .ampAmp), ("&=", .ampEq), ("<<", .shl), ("<=", .ltEq), ("<<=", .shlEq), (">>", .shr),
   (">=", .gtEq), (">>=", .shrEq)]

/-- A punctuator that is longer than what is cut off it can be cut. -/
theorem mem_cuttable {kind : Kind} (hkind : kind ∈ Language.cutKinds) {spelling : String}
    (hspell : kind.spelling? = some spelling) {entry : String × Kind}
    (hentry : entry ∈ Kind.punctuators) (hlt : spelling.utf8ByteSize < entry.1.utf8ByteSize)
    (hstart : spelling.toList.isPrefixOf entry.1.toList = true) : entry ∈ cuttable := by
  have hall : ∀ kind ∈ Language.cutKinds, ∀ entry ∈ Kind.punctuators,
      kind.spelling?.all (fun spelling =>
        spelling.utf8ByteSize < entry.1.utf8ByteSize →
          spelling.toList.isPrefixOf entry.1.toList = true → entry ∈ cuttable) = true := by
    decide
  have hthis := hall kind hkind entry hentry
  rw [hspell, Option.all_some] at hthis
  exact of_decide_eq_true hthis hlt hstart

/-- Tokens that can be cut are short. -/
theorem size_le_of_mem_cuttable {entry : String × Kind} (h : entry ∈ cuttable) :
    entry.1.utf8ByteSize ≤ 3 := by
  have hall : ∀ entry ∈ cuttable, entry.1.utf8ByteSize ≤ 3 := by decide
  exact hall entry h

/-- **What is left of a token that is cut is a punctuator.** -/
theorem punctuator?_drop {entry : String × Kind} (h : entry ∈ cuttable) {n : Nat} (hn : n ≠ 0)
    (hlt : n < entry.1.utf8ByteSize) : Text.byteSize (entry.1.toList.take n) = n ∧
      ∃ kind, Kind.punctuator? (String.ofList (entry.1.toList.drop n)) = some kind := by
  have hall : ∀ entry ∈ cuttable, ∀ n < 3, n ≠ 0 → n < entry.1.utf8ByteSize →
      Text.byteSize (entry.1.toList.take n) = n ∧
        (Kind.punctuator? (String.ofList (entry.1.toList.drop n))).isSome = true := by
    decide
  have hshort := size_le_of_mem_cuttable h
  obtain ⟨hsize, hsome⟩ := hall entry h n (by omega) hn hlt
  exact ⟨hsize, Option.isSome_iff_exists.mp hsome⟩

/-! ## What carries a token -/

/-- The leaves that carry a token: one, with its kind and text, or pieces of it, two at least,
each spelled as its kind is.  No leaf carries the end of the text. -/
inductive Carries (t : Token) : List (Kind × String) → Prop where
  | whole : t.kind ≠ .eof → Carries t [(t.kind, t.text)]
  | pieces {ls : List (Kind × String)} : (t.text, t.kind) ∈ cuttable → 2 ≤ ls.length →
    (∀ l ∈ ls, l.1.spelling? = some l.2) → String.join (ls.map (·.2)) = t.text → Carries t ls

variable {t u : Token} {ts : List Token} {ls : List (Kind × String)}

/-- The texts of the leaves are the text of the token. -/
theorem Carries.join_eq (h : t.Carries ls) : String.join (ls.map (·.2)) = t.text := by
  cases h with
  | whole => simp [String.join_cons, String.join_nil]
  | pieces _ _ _ hjoin => exact hjoin

/-- A token is never carried by nothing. -/
theorem Carries.ne_nil (h : t.Carries ls) : ls ≠ [] := by
  rintro rfl
  cases h with
  | pieces _ hlen => simp at hlen

/-- Pieces of a token that has a spelling have one too. -/
theorem Carries.spelling? (h : t.Carries ls) (ht : t.kind.spelling? = some t.text) :
    ∀ l ∈ ls, l.1.spelling? = some l.2 := by
  cases h with
  | whole =>
    intro l hl
    obtain rfl := List.mem_singleton.mp hl
    exact ht
  | pieces _ _ hspell _ => exact hspell

/-- **A piece cut off a token, and what carries the rest of it, carry the token.** -/
theorem Carries.cut (h : u.Carries ls) (hcut : (t.text, t.kind) ∈ cuttable) {kind : Kind}
    {spelling : String} (hspell : kind.spelling? = some spelling)
    (hrest : u.kind.spelling? = some u.text) (htext : t.text = spelling ++ u.text) :
    t.Carries ((kind, spelling) :: ls) := by
  refine .pieces hcut ?_ ?_ ?_
  · have hpos := List.length_pos_iff.mpr h.ne_nil
    rw [List.length_cons]
    omega
  · rintro l (_ | ⟨_, hl⟩)
    · exact hspell
    · exact h.spelling? hrest l hl
  · rw [List.map_cons, String.join_cons, h.join_eq, htext]

/-- What carries a token that is no trivia is significant. -/
theorem Carries.isSignificant (h : t.Carries ls) (ht : TriviaKind.ofKind? t.kind = none) :
    ∀ l ∈ ls, l.1.isSignificant = true := by
  intro l hl
  cases h with
  | whole hkind =>
    obtain rfl := List.mem_singleton.mp hl
    exact Kind.isSignificant_iff.mpr ⟨ht, hkind⟩
  | pieces _ _ hspell _ => exact Kind.isSignificant_of_spelling? (hspell l hl)

/-! ## What covers tokens -/

/-- The leaves of the trivia in front of a token. -/
def triviaLeaves (t : Token) : List (Kind × String) := t.trivia.map fun v => (v.kind.kind, v.text)

/-- The leaves cover the tokens: each is carried, behind its trivia. -/
inductive Covers : List Token → List (Kind × String) → Prop where
  | nil : Covers [] []
  | cons {t : Token} {ts : List Token} {group ls : List (Kind × String)} : Carries t group →
    Covers ts ls → Covers (t :: ts) (t.triviaLeaves ++ (group ++ ls))

/-- What covers the rest of a token that has been cut, and a piece in front, cover the token
with its trivia. -/
theorem Covers.cut (h : Covers (u :: ts) ls) (hbare : u.trivia = [])
    (hcut : (t.text, t.kind) ∈ cuttable) {kind : Kind} {spelling : String}
    (hspell : kind.spelling? = some spelling) (hrest : u.kind.spelling? = some u.text)
    (htext : t.text = spelling ++ u.text) :
    Covers (t :: ts) (t.triviaLeaves ++ [(kind, spelling)] ++ ls) := by
  cases h with
  | @cons _ _ group others hcarries hcovers =>
    have hnone : u.triviaLeaves = [] := by rw [triviaLeaves, hbare, List.map_nil]
    rw [hnone, List.nil_append, List.append_assoc, List.singleton_append, ← List.cons_append]
    exact .cons (hcarries.cut hcut hspell hrest htext) hcovers

@[simp] theorem triviaLeaves_join (t : Token) :
    String.join (t.triviaLeaves.map (·.2)) = String.join (t.trivia.map (·.text)) := by
  rw [triviaLeaves, List.map_map]
  rfl

@[simp] theorem filter_triviaLeaves (t : Token) :
    t.triviaLeaves.filter (·.1.isSignificant) = [] := by
  refine List.filter_eq_nil_iff.mpr fun l hl => ?_
  obtain ⟨v, -, rfl⟩ := List.mem_map.mp hl
  simp [Kind.isSignificant, Kind.isTrivia_kind]

theorem triviaLeaves_ne_eof (t : Token) : ∀ l ∈ t.triviaLeaves, l.1 ≠ .eof := by
  intro l hl
  obtain ⟨v, -, rfl⟩ := List.mem_map.mp hl
  exact Lexeme.trivia_ne_eof v.kind

/-- The leaves have the text of the tokens and their trivia. -/
theorem Covers.join_eq (h : Covers ts ls) :
    String.join (ls.map (·.2)) = String.join (ts.map fullText) := by
  induction h with
  | nil => rfl
  | cons hcarries _ ih =>
    rw [List.map_append, List.map_append, String.join_append, String.join_append,
      triviaLeaves_join, hcarries.join_eq, ih, List.map_cons, String.join_cons, fullText,
      String.append_assoc]

/-- The leaves without the trivia are what carries the tokens, one after the other. -/
theorem Covers.exists_groups (h : Covers ts ls)
    (hts : ∀ t ∈ ts, TriviaKind.ofKind? t.kind = none) :
    ∃ groups, List.Forall₂ Carries ts groups ∧
      ls.filter (·.1.isSignificant) = groups.flatten := by
  induction h with
  | nil => exact ⟨[], .nil, rfl⟩
  | @cons t ts group ls hcarries _ ih =>
    obtain ⟨groups, hall, hfilter⟩ := ih fun t ht => hts t (List.mem_cons_of_mem _ ht)
    refine ⟨group :: groups, .cons hcarries hall, ?_⟩
    have hgroup : group.filter (·.1.isSignificant) = group :=
      List.filter_eq_self.mpr (hcarries.isSignificant (hts t List.mem_cons_self))
    rw [List.filter_append, List.filter_append, filter_triviaLeaves, hgroup, hfilter]
    rfl

/-- No leaf among them is the end of the text. -/
theorem Covers.kind_ne_eof (h : Covers ts ls) : ∀ l ∈ ls, l.1 ≠ .eof := by
  induction h with
  | nil => simp
  | @cons t ts group ls hcarries _ ih =>
    intro l hl
    rcases List.mem_append.mp hl with htrivia | hl
    · exact t.triviaLeaves_ne_eof l htrivia
    · rcases List.mem_append.mp hl with hgroup | hl
      · cases hcarries with
        | whole hkind =>
          obtain rfl := List.mem_singleton.mp hgroup
          exact hkind
        | pieces _ _ hspell _ =>
          exact (Kind.isSignificant_iff.mp
            (Kind.isSignificant_of_spelling? (hspell l hgroup))).2
      · exact ih l hl

/-- No token among them is the end of the text. -/
theorem Covers.token_ne_eof (h : Covers ts ls) : ∀ t ∈ ts, t.kind ≠ .eof := by
  induction h with
  | nil => simp
  | @cons t ts group ls hcarries _ ih =>
    rintro u (_ | ⟨_, hu⟩)
    · cases hcarries with
      | whole hkind => exact hkind
      | pieces hcut =>
        have hall : ∀ entry ∈ cuttable, entry.2 ≠ .eof := by decide
        exact hall _ hcut
    · exact ih u hu

end Token
end Packrat
