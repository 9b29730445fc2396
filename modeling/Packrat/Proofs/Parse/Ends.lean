/-
# Parsing ends

Whatever the text, the construct and the limits, parsing ends with a tree, a fault of the
lexer or a fault of the parser.  The grammar is there; no token is missing, since tokens are
cut only where they are short; and the fuel that a run is given is not less than the cost of
its root, so no evaluation is broken off.
-/

import Packrat.Parse
import Packrat.Proofs.Language.Grammar
import Packrat.Proofs.Peg.Ending
import Packrat.Proofs.Token.Stream

namespace Packrat

open Peg

/-! ## Tokens that are cut -/

/-- What is cut off a token is one character, a bracket or an ampersand. -/
theorem Language.spelling_of_mem_cutKinds {kind : Kind} (hkind : kind ∈ Language.cutKinds)
    {spelling : String} (hspell : kind.spelling? = some spelling) :
    ∃ c, spelling.toList = [c] ∧ Lexeme.isBracketOrAmp c = true := by
  have hall : ∀ kind ∈ Language.cutKinds, kind.spelling?.any (fun spelling =>
      spelling = "<" ∨ spelling = ">" ∨ spelling = "&") = true := by decide
  have hthis := hall kind hkind
  rw [hspell, Option.any_some] at hthis
  rcases of_decide_eq_true hthis with rfl | rfl | rfl
  · exact ⟨'<', by decide, by decide⟩
  · exact ⟨'>', by decide, by decide⟩
  · exact ⟨'&', by decide, by decide⟩

namespace TokenStream

variable {text : List Char} {s : TokenStream}

/-- A token that something may be cut off is a punctuator of the table. -/
theorem mem_punctuators_of_cut (hs : ofText text = .ok s) {kind : Kind}
    (hkind : kind ∈ Language.cutKinds) {spelling : String}
    (hspell : kind.spelling? = some spelling) {t : Token} (ht : t ∈ s.tokens.toList)
    (hstart : spelling.toList <+: t.text.toList) : (t.text, t.kind) ∈ Kind.punctuators := by
  obtain ⟨c, hc, hfirst⟩ := Language.spelling_of_mem_cutKinds hkind hspell
  obtain ⟨rest, htext⟩ := hstart
  rw [hc, List.singleton_append] at htext
  obtain ⟨ts, eof, htokens, -, heof, hscanned⟩ := ofText_tokens hs
  rw [htokens] at ht
  rcases List.mem_append.mp ht with hmem | hlast
  · have hscan := (hscanned t hmem).2
    rw [← htext] at hscan
    have hpunct := hscan.mem_punctuators hfirst
    rwa [htext, String.ofList_toList] at hpunct
  · obtain rfl := List.mem_singleton.mp hlast
    rw [heof] at htext
    cases htext

theorem symbols_eq (s : TokenStream) : s.symbols = s.tokens.map Token.symbol := rfl

/-- Tokens are short where they are cut. -/
theorem cutsShort (hs : ofText text = .ok s) (g : Grammar) (limits : Limits) :
    ∀ kind ∈ Language.cutKinds, (⟨g, s.symbols, limits⟩ : Machine).CutsShort kind := by
  intro kind hkind spelling hspell i symbol hsymbol hstart
  have hmem : symbol ∈ s.symbols.toList := Array.mem_toList_iff.mpr (Array.mem_of_getElem? hsymbol)
  rw [symbols_eq, Array.toList_map] at hmem
  obtain ⟨t, ht, rfl⟩ := List.mem_map.mp hmem
  have hshort : ∀ entry ∈ Kind.punctuators, entry.1.utf8ByteSize ≤ 255 := by decide
  exact hshort _ (mem_punctuators_of_cut hs hkind hspell ht hstart)

end TokenStream

namespace Parse

/-- A tree, or an error of the lexer or the parser. -/
def Returns (r : Except Error Parse) : Prop :=
  (∃ p, r = .ok p) ∨ (∃ e, r = .error (.lex e)) ∨ ∃ e, r = .error (.parse e)

/-- The table that a run begins with: one that knows of something is emptied. -/
def emptied (memo : Memo) : Memo := if memo.isEmpty then memo else memo.reset

theorem isEmpty_emptied (memo : Memo) : (emptied memo).isEmpty = true := by
  unfold emptied
  split
  · assumption
  · simp [Memo.reset, Memo.isEmpty, Memo.size]

/-- A memo table says nothing after it has been emptied. -/
theorem get?_emptied (memo : Memo) (key : MemoKey) : (emptied memo).get? key = none :=
  Memo.get?_of_isEmpty (isEmpty_emptied memo) key

/-- What an evaluation comes to is a tree or an error of the parser. -/
theorem answer_returns (s : TokenStream) (r : Machine.Run) : Returns (answer s r) := by
  unfold answer
  split
  · exact .inl ⟨_, rfl⟩
  · exact .inr (.inr ⟨_, rfl⟩)
  · exact .inr (.inr ⟨_, rfl⟩)
  · exact .inr (.inr ⟨_, rfl⟩)

/-- The machine of a run over a stream. -/
def machine (g : Grammar) (s : TokenStream) (options : ParseOptions) : Machine :=
  ⟨g, s.symbols, { maxSteps := options.maxSteps, maxDepth := options.maxDepth }⟩

/-- **A run over the tokens of a text is not broken off.**  It begins with a table that says
nothing, whatever the table held before, comes to an answer and leaves its table. -/
theorem exists_run_emptied {text : List Char} {s : TokenStream}
    (hs : TokenStream.ofText text = .ok s) {root : Term}
    (hroot : ∀ g, ∀ t ∈ root.parts, Language.isPlain g t = true) (options : ParseOptions)
    (memo : Memo) : ∃ g r, Language.grammar = .ok g ∧
      (machine g s options).run root { memo := emptied memo } = .ok r ∧
      run root options s memo = (answer s r, r.state.memo) := by
  obtain ⟨g, hg⟩ := Language.exists_grammar
  have hshort := TokenStream.cutsShort hs g
    { maxSteps := options.maxSteps, maxDepth := options.maxDepth }
  obtain ⟨rank, hm⟩ := Language.exists_surveyed (m := machine g s options) hg hshort root.size
  have hidle : (machine g s options).IsIdle True (emptied memo) :=
    ⟨fun key h => by simp [get?_emptied] at h, fun key e h => by simp [get?_emptied] at h⟩
  have hrun := Machine.runWith_descends hm ((machine g s options).fuelFor root)
    (s := { memo := emptied memo }) (Language.every_allows hshort (hroot g)) hidle
  cases ho : (machine g s options).runWith ((machine g s options).fuelFor root) root
      { memo := emptied memo } with
  | error f =>
    rw [ho] at hrun
    exact absurd ⟨trivial, Machine.cost_le_fuelFor _ root⟩ hrun.2
  | ok r =>
    have hrun' : (machine g s options).run root { memo := emptied memo } = .ok r := ho
    refine ⟨g, r, hg, hrun', ?_⟩
    unfold machine emptied at hrun'
    rw [run, hg, runWith]
    simp only [hrun']

/-- The same, of the result alone and any table that says nothing. -/
theorem exists_run {text : List Char} {s : TokenStream} (hs : TokenStream.ofText text = .ok s)
    {root : Term} (hroot : ∀ g, ∀ t ∈ root.parts, Language.isPlain g t = true)
    (options : ParseOptions) (memo : Memo) : ∃ g table r, Language.grammar = .ok g ∧
      (∀ key, table.get? key = none) ∧
      (machine g s options).run root { memo := table } = .ok r ∧
      (run root options s memo).1 = answer s r := by
  obtain ⟨g, r, hg, hrun, hanswer⟩ := exists_run_emptied hs hroot options memo
  exact ⟨g, emptied memo, r, hg, get?_emptied memo, hrun, congrArg Prod.fst hanswer⟩

/-- A run over the tokens of a text gives a tree or an error of the parser. -/
theorem run_returns {text : List Char} {s : TokenStream} (hs : TokenStream.ofText text = .ok s)
    {root : Term} (hroot : ∀ g, ∀ t ∈ root.parts, Language.isPlain g t = true)
    (options : ParseOptions) (memo : Memo) : Returns (run root options s memo).1 := by
  obtain ⟨g, table, r, -, -, -, hr⟩ := exists_run hs hroot options memo
  rw [hr]
  exact answer_returns s r

/-- Reading the tokens of a text first. -/
theorem bind_stream {text : List Char} {s : TokenStream} (hs : TokenStream.ofText text = .ok s)
    (work : TokenStream → Except Error Parse) :
    ((TokenStream.ofText text).mapError .lex >>= work) = work s := by
  rw [hs]
  rfl

theorem returns_of_stream {text : List Char} {work : TokenStream → Except Error Parse}
    (hwork : ∀ s, TokenStream.ofText text = .ok s → Returns (work s)) :
    Returns ((TokenStream.ofText text).mapError .lex >>= work) := by
  cases hs : TokenStream.ofText text with
  | error e => exact .inr (.inl ⟨e, rfl⟩)
  | ok s => exact hwork s hs

/-- **Parsing always ends.**  The grammar of the language is accepted, and whatever the text
and the options, parsing a file or any other construct gives a tree, an error of the lexer or
an error of the parser. -/
theorem parsing_returns (text : List Char) (options : ParseOptions) :
    (∃ g, Language.grammar = .ok g) ∧ Returns (ofText text options) ∧
      ∀ entry, Returns (ofEntry entry text options) := by
  refine ⟨Language.exists_grammar, ?_, fun entry => ?_⟩
  · exact returns_of_stream fun s hs =>
      run_returns hs (fun g => Language.isPlain_rule Language.fileRule.name) options {}
  · exact returns_of_stream fun s hs =>
      run_returns hs (fun g => Language.isPlain_rule_ended entry.ruleName) options {}

end Parse
end Packrat
