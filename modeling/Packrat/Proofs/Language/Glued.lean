/-
# Rules that cut tokens

Where brackets or ampersands are nested, tokens end in the middle of what a rule reads: the rule
takes the first piece of a token, and the next rule goes on inside it.  What is around such places
does not depend on how the tokens are cut.  So each level of nesting is settled by a drawing
(`drawings`), the levels inside it being known:

| drawing | the tokens that are looked at |
| --- | --- |
| a name as a type | the name, and what is behind it |
| a type around a name, a type around another one | two names, brackets, and what is behind them |
| a `let` statement with a type | all but those of the type |
| a reference to an operand, an expression that is one | the ampersand or name, and what is behind |

From these, types and references of any depth are read level by level (`parses_nested`,
`parses_references`), wherever tokens are cut for it.
-/

import Packrat.Proofs.Language.Operand
import Packrat.Proofs.Peg.Sketch
import Packrat.Proofs.Token.Glued
import Packrat.Proofs.Tree.Plain

namespace Packrat
namespace Language

open Peg Token

/-! ## Sights -/

/-- A whole token of a kind. -/
def one (kind : Kind) : Sight where
  kinds := [kind]
  cuts := cutKinds.filter (· = kind)
  lacks := cutKinds.filter (· ≠ kind)

/-- What may stand behind the types here: closing brackets, an equals sign, or the end. -/
def quiet : Sight where
  kinds := [.gt, .shr, .gtEq, .shrEq, .eq, .eof]
  lacks := [.lt, .amp]

/-- A closing bracket, and perhaps more in the same token. -/
def closing : Sight where
  kinds := [.gt, .shr, .gtEq, .shrEq]
  cuts := [.gt]
  lacks := [.lt, .amp]

/-- An ampersand, and perhaps another one in the same token. -/
def ampersand : Sight where
  kinds := [.amp, .ampAmp]
  cuts := [.amp]
  lacks := [.lt, .gt]

/-- The first token of a stretch that is known. -/
def first : Sight where
  kinds := [.ident, .rawIdent, .lt, .amp, .ampAmp]

/-- The first token of a reference that is known. -/
def firstAmpersand : Sight where
  kinds := [.amp, .ampAmp]

/-- Identifiers: the one that may begin a raw reference, others, and raw ones. -/
def identifiers : List Sight :=
  [{ one .ident with words := [("raw", true)] }, { one .ident with words := [("raw", false)] },
    one .rawIdent]

/-! ## Drawings -/

/-- A type that is a name, with arguments or without. -/
def namedType (name : Match) (args : List Match) : Match :=
  .node .pathType [.node .path [.node .pathSegment (.node .nameRef [name] :: args)]]

/-- A list of one type. -/
def argsOf (opening inner closing : Match) : Match :=
  .node .genericArgList [opening, .node .typeArg [inner], closing]

/-- An expression that is a name. -/
def namedExpr (name : Match) : Match :=
  .node .pathExpr [.node .path [.node .pathSegment [.node .nameRef [name]]]]

/-- A name as a type. -/
def lastName : Drawing := ⟨⟨[one .ident, quiet], []⟩, "type", 0, namedType (Scene.leaf 0) [], 1⟩

/-- Arguments around a name, which is the type from place 2 on. -/
def aroundName : Scene :=
  ⟨[one .ident, one .lt, one .ident, closing, quiet], [⟨"type", 2, 5, 3⟩]⟩

/-- A list of a name. -/
def argsOfName : Drawing :=
  ⟨aroundName, "generic_args", 1, argsOf (Scene.leaf 1) (Scene.leaf 5) (Scene.leaf 3), 4⟩

/-- A type with a list of a name. -/
def typeOfName : Drawing :=
  ⟨aroundName, "type", 0, namedType (Scene.leaf 0) [argsOfName.tree], 4⟩

/-- Arguments around a type with arguments, which is from place 2 on, and they from place 3. -/
def aroundType : Scene :=
  ⟨[one .ident, one .lt, one .ident, first, closing, quiet],
    [⟨"type", 2, 6, 4⟩, ⟨"generic_args", 3, 7, 4⟩]⟩

/-- A list of a type with arguments. -/
def argsOfType : Drawing :=
  ⟨aroundType, "generic_args", 1, argsOf (Scene.leaf 1) (Scene.leaf 6) (Scene.leaf 4), 5⟩

/-- A type with a list of a type with arguments. -/
def typeOfType : Drawing :=
  ⟨aroundType, "type", 0, namedType (Scene.leaf 0) [argsOfType.tree], 5⟩

/-- A `let` statement with a type, which is from place 3 on. -/
def binding : Drawing where
  scene := ⟨[one .letKw, one .ident, one .colon, first, one .eq, one .ident, one .semicolon],
    [⟨"type", 3, 7, 4⟩]⟩
  rule := "let_stmt"
  start := 0
  tree := .node .letStmt [Scene.leaf 0, .node .identPat [.node .name [Scene.leaf 1]],
    Scene.leaf 2, Scene.leaf 7, Scene.leaf 4, namedExpr (Scene.leaf 5), Scene.leaf 6]
  stop := 7

/-- A name as an operand. -/
def lastOperand (name : Sight) : Drawing :=
  ⟨⟨[name, quiet], []⟩, "expr_unary", 0, namedExpr (Scene.leaf 0), 1⟩

/-- A reference to an operand, which is from place 1 on. -/
def reference (operand : Sight) : Drawing :=
  ⟨⟨[ampersand, operand, quiet], [⟨"expr_unary", 1, 3, 2⟩]⟩, "expr_unary", 0,
    .node .refExpr [Scene.leaf 0, Scene.leaf 3], 2⟩

/-- An operand as an expression. -/
def onlyOperand : Drawing :=
  ⟨⟨[first, one .eof], [⟨"expr_unary", 0, 2, 1⟩]⟩, "expr", 0, Scene.leaf 2, 1⟩

/-- All drawings. -/
def drawings : List Drawing :=
  [lastName, argsOfName, typeOfName, argsOfType, typeOfType, binding, onlyOperand] ++
    identifiers.map lastOperand ++ (firstAmpersand :: identifiers).map reference

/-- A check of the grammar: every drawing is found. -/
def draws (g : Grammar) : Bool := drawings.all fun d => d.isFound 100 g

/-- **Every drawing is right.** -/
theorem parses_drawing {m : Machine} (hg : grammar = .ok m.grammar) {d : Drawing}
    (hd : d ∈ drawings) {places : List Pos} {leaves : List Match}
    (h : m.Displays places leaves d.scene) :
    Parses m {} (.term (.rule d.rule)) (places.getD d.start {})
      (some ([d.tree.fill leaves], places.getD d.stop {})) := by
  have hall : draws m.grammar = true := of_coded (by decide +kernel) hg
  exact Drawing.parses (List.all_eq_true.mp hall d hd) h

end Language

/-! ## Places among pieces -/

namespace Peg.Machine

open Packrat.Language Token

variable {m : Machine} {pos next start mid stop : Pos} {n l : Match} {sight : Sight}
  {ls ls' : List Match} {kind : Kind} {text : String} {b : Nat}

/-- A sight is of a place, and what is taken there is a leaf of a kind and a text. -/
structure Takes (m : Machine) (sight : Sight) (pos : Pos) (n : Match) (kind : Kind)
    (text : String) (next : Pos) : Prop where
  shows : m.Shows sight pos n next
  bare : Tree.bare? m.tokens n = some (.token kind text)

/-- What is read of one token does not depend on where it stands. -/
theorem Takes.of_alone {symbol : Symbol} {offset : UInt8} {part : Option (UInt8 × UInt8)}
    {kind' : Kind} (ht : m.tokens[b]? = some symbol)
    (h : (alone symbol).Takes sight ⟨0, offset⟩ (.token 0 kind' part) kind text next) :
    m.Takes sight ⟨b, offset⟩ (.token b kind' part) kind text (next.later b) where
  shows := h.shows.of_alone ht
  bare := by
    have hbare := h.bare
    rw [Tree.bare?] at hbare ⊢
    rw [ht]
    exact hbare

/-- Behind a type nothing goes on with it at the place. -/
def IsQuiet (m : Machine) (pos : Pos) : Prop := ∀ n next, m.Shows quiet pos n next

/-- A sight that says of nothing that it is taken is of every place of one of its kinds. -/
theorem shows_of_kind {kind' : Kind} {kinds lacks : List Kind}
    (hkind : m.kindAt pos ∈ kind :: kind' :: kinds)
    (hlacks : ∀ kind ∈ lacks, m.read? pos (.split kind) = none) :
    m.Shows ⟨kind :: kind' :: kinds, [], lacks, []⟩ pos n next where
  kind := hkind
  whole _ _ hone := by cases hone
  cuts _ h := by cases h
  lacks := hlacks
  words _ h := by cases h

theorem Shows.isQuiet (h : m.Shows sight pos n next) (hkinds : sight.kinds ⊆ quiet.kinds)
    (hlacks : quiet.lacks ⊆ sight.lacks) : m.IsQuiet pos := fun _ _ =>
  shows_of_kind (hkinds h.kind) fun kind hkind => h.lacks kind (hlacks hkind)

/-- The first token of a stretch, whatever the stretch is. -/
theorem shows_first (h : m.kindAt pos ∈ first.kinds) : m.Shows first pos n next :=
  shows_of_kind h (by rintro kind ⟨⟩)

/-- Closing brackets stand side by side from a place on; the last one is the first of them. -/
inductive Brackets (m : Machine) (start : Pos) : List Match → Pos → Prop where
  | nil : Brackets m start [] start
  | cons {ls : List Match} {l : Match} {mid stop : Pos} : Brackets m start ls mid →
    m.Takes closing mid l .gt ">" stop → Brackets m start (l :: ls) stop

theorem Brackets.trans (h : m.Brackets start ls mid) (h' : m.Brackets mid ls' stop) :
    m.Brackets start (ls' ++ ls) stop := by
  induction h' with
  | nil => exact h
  | cons _ htakes ih => exact .cons ih htakes

/-- Behind the brackets is token `e`, or an equals sign and then token `e`. -/
def EndsAt (m : Machine) (before : Bool) (stop : Pos) (e : Nat) : Prop :=
  if before then ∃ l, m.Takes (one .eq) stop l .eq "=" ⟨e, 0⟩ else stop = ⟨e, 0⟩

/-- Two brackets in one token. -/
theorem brackets_shr (ht : m.tokens[b]? = some ⟨.shr, ">>"⟩) :
    m.Brackets ⟨b, 0⟩ [.token b .gt (some (1, 2)), .token b .gt (some (0, 1))] ⟨b + 1, 0⟩ := by
  have hfirst : (alone ⟨.shr, ">>"⟩).Takes closing ⟨0, 0⟩ (.token 0 .gt (some (0, 1)))
      .gt ">" ⟨0, 1⟩ := ⟨by decide, rfl⟩
  have hsecond : (alone ⟨.shr, ">>"⟩).Takes closing ⟨0, 1⟩ (.token 0 .gt (some (1, 2)))
      .gt ">" ⟨1, 0⟩ := ⟨by decide, rfl⟩
  exact .cons (.cons .nil (.of_alone ht hfirst)) (.of_alone ht hsecond)

/-- **However many brackets there are, they can be read one by one**, and the equals sign behind
them after them. -/
theorem exists_brackets (before : Bool) : ∀ (n b : Nat) (rest : List Symbol),
    m.tokens.toList.drop b = closers before n ++ rest → ∃ ls stop, m.Brackets ⟨b, 0⟩ ls stop ∧
      ls.length = n ∧ m.EndsAt before stop (b + (closers before n).length)
  | 0, b, rest, hdrop => by
    cases before with
    | false => exact ⟨[], ⟨b, 0⟩, .nil, rfl, rfl⟩
    | true =>
      have heq : (alone ⟨.eq, "="⟩).Takes (one .eq) ⟨0, 0⟩ (.token 0 .eq none)
          .eq "=" ⟨1, 0⟩ := ⟨by decide, rfl⟩
      exact ⟨[], ⟨b, 0⟩, .nil, rfl, _, .of_alone (getElem?_of_drop hdrop).1 heq⟩
  | 1, b, rest, hdrop => by
    cases before with
    | false =>
      have hgt : (alone ⟨.gt, ">"⟩).Takes closing ⟨0, 0⟩ (.token 0 .gt none)
          .gt ">" ⟨1, 0⟩ := ⟨by decide, rfl⟩
      exact ⟨_, _, .cons .nil (.of_alone (getElem?_of_drop hdrop).1 hgt), rfl, rfl⟩
    | true =>
      have ht := (getElem?_of_drop hdrop).1
      have hgt : (alone ⟨.gtEq, ">="⟩).Takes closing ⟨0, 0⟩ (.token 0 .gt (some (0, 1)))
          .gt ">" ⟨0, 1⟩ := ⟨by decide, rfl⟩
      have heq : (alone ⟨.gtEq, ">="⟩).Takes (one .eq) ⟨0, 1⟩ (.token 0 .eq (some (1, 2)))
          .eq "=" ⟨1, 0⟩ := ⟨by decide, rfl⟩
      exact ⟨_, _, .cons .nil (.of_alone ht hgt), rfl, _, .of_alone ht heq⟩
  | 2, b, rest, hdrop => by
    cases before with
    | false => exact ⟨_, _, brackets_shr (getElem?_of_drop hdrop).1, rfl, rfl⟩
    | true =>
      have ht := (getElem?_of_drop hdrop).1
      have hfirst : (alone ⟨.shrEq, ">>="⟩).Takes closing ⟨0, 0⟩ (.token 0 .gt (some (0, 1)))
          .gt ">" ⟨0, 1⟩ := ⟨by decide, rfl⟩
      have hsecond : (alone ⟨.shrEq, ">>="⟩).Takes closing ⟨0, 1⟩ (.token 0 .gt (some (1, 2)))
          .gt ">" ⟨0, 2⟩ := ⟨by decide, rfl⟩
      have heq : (alone ⟨.shrEq, ">>="⟩).Takes (one .eq) ⟨0, 2⟩ (.token 0 .eq (some (2, 3)))
          .eq "=" ⟨1, 0⟩ := ⟨by decide, rfl⟩
      exact ⟨_, _, .cons (.cons .nil (.of_alone ht hfirst)) (.of_alone ht hsecond), rfl, _,
        .of_alone ht heq⟩
  | n + 3, b, rest, hdrop => by
    obtain ⟨ht, hrest⟩ := getElem?_of_drop hdrop
    obtain ⟨ls, stop, hbrackets, hlength, hend⟩ := exists_brackets before (n + 1) (b + 1) rest hrest
    refine ⟨_, stop, (brackets_shr ht).trans hbrackets, by simp [hlength], ?_⟩
    have hindex : b + 1 + (closers before (n + 1)).length =
        b + (closers before (n + 3)).length := by
      rw [closers, List.length_cons]
      omega
    rwa [hindex] at hend

end Peg.Machine

/-! ## Trees -/

namespace Language

open Peg

/-- The type whose first token has number `i`, with these closing brackets. -/
def nestedType : Nat → List Match → Match
  | i, [] => namedType (.token i .ident none) []
  | i, l :: ls => namedType (.token i .ident none)
      [argsOf (.token (i + 1) .lt none) (nestedType (i + 2) ls) l]

/-- The tree of a type with lists of arguments nested `n` deep. -/
def nestedTree : Nat → Tree
  | 0 => .node .pathType [.node .path [.node .pathSegment [.node .nameRef [.token .ident "u8"]]]]
  | n + 1 => .node .pathType [.node .path [.node .pathSegment [.node .nameRef [.token .ident "A"],
      .node .genericArgList [.token .lt "<", .node .typeArg [nestedTree n], .token .gt ">"]]]]

/-- The tree of a name as an expression. -/
def namedTree (kind : Kind) (text : String) : Tree :=
  .node .pathExpr [.node .path [.node .pathSegment [.node .nameRef [.token kind text]]]]

/-- The tree of a statement with a type. -/
def bindingTree (t : Tree) : Tree :=
  .node .letStmt [.token .letKw "let", .node .identPat [.node .name [.token .ident "v"]],
    .token .colon ":", t, .token .eq "=", namedTree .ident "x", .token .semicolon ";"]

/-- What is matched of a statement with a type and the equals sign behind it. -/
def boundType (n l : Match) (e : Nat) : Match :=
  .node .letStmt [.token 0 .letKw none, .node .identPat [.node .name [.token 1 .ident none]],
    .token 2 .colon none, n, l, namedExpr (.token e .ident none), .token (e + 1) .semicolon none]

/-- An operand behind ampersands. -/
def referenced : List Match → Match → Match
  | [], n => n
  | l :: ls, n => .node .refExpr [l, referenced ls n]

/-- The tree of an operand behind `n` ampersands. -/
def referenceTree (t : Tree) : Nat → Tree
  | 0 => t
  | n + 1 => .node .refExpr [.token .amp "&", referenceTree t n]

end Language

/-! ## Types -/

namespace Peg.Machine

open Packrat.Language Token

variable {m : Machine} {pos next start mid stop : Pos} {n l : Match} {sight : Sight}
  {ls ls' : List Match} {kind : Kind} {text : String} {b : Nat}

/-- A whole token that is no bracket and no ampersand, or is a bracket alone. -/
theorem takes_one (ht : m.tokens[b]? = some ⟨kind, text⟩)
    (h : (alone ⟨kind, text⟩).Takes (one kind) ⟨0, 0⟩ (.token 0 kind none) kind text ⟨1, 0⟩) :
    m.Takes (one kind) ⟨b, 0⟩ (.token b kind none) kind text ⟨b + 1, 0⟩ := .of_alone ht h

theorem takes_A (ht : m.tokens[b]? = some ⟨.ident, "A"⟩) :
    m.Takes (one .ident) ⟨b, 0⟩ (.token b .ident none) .ident "A" ⟨b + 1, 0⟩ :=
  takes_one ht ⟨by decide, rfl⟩

theorem takes_u8 (ht : m.tokens[b]? = some ⟨.ident, "u8"⟩) :
    m.Takes (one .ident) ⟨b, 0⟩ (.token b .ident none) .ident "u8" ⟨b + 1, 0⟩ :=
  takes_one ht ⟨by decide, rfl⟩

theorem takes_lt (ht : m.tokens[b]? = some ⟨.lt, "<"⟩) :
    m.Takes (one .lt) ⟨b, 0⟩ (.token b .lt none) .lt "<" ⟨b + 1, 0⟩ :=
  takes_one ht ⟨by decide, rfl⟩

theorem shows_eof (ht : m.tokens[b]? = some ⟨.eof, ""⟩) :
    m.Shows (one .eof) ⟨b, 0⟩ (.token b .eof none) ⟨b + 1, 0⟩ := by
  have heof : (alone ⟨.eof, ""⟩).Shows (one .eof) ⟨0, 0⟩ (.token 0 .eof none) ⟨1, 0⟩ := by
    decide
  exact heof.of_alone ht

/-- The tree of a type. -/
theorem bare?_nestedType (h : m.Brackets start ls stop) : ∀ (i : Nat) (rest : List Symbol),
    m.tokens.toList.drop i = openers ls.length ++ rest →
      Tree.bare? m.tokens (nestedType i ls) = some (nestedTree ls.length) := by
  induction h with
  | nil =>
    intro i rest hdrop
    simp [nestedType, namedType, nestedTree, Tree.bare?_node, Tree.bareAll?,
      (takes_u8 (getElem?_of_drop hdrop).1).bare]
  | cons _ htakes ih =>
    intro i rest hdrop
    obtain ⟨hname, hdrop⟩ := getElem?_of_drop hdrop
    obtain ⟨hlt, hdrop⟩ := getElem?_of_drop hdrop
    simp [nestedType, namedType, argsOf, nestedTree, Tree.bare?_node, Tree.bareAll?,
      (takes_A hname).bare, (takes_lt hlt).bare, ih (i + 2) rest hdrop, htakes.bare]

/-- **A type is read to its last bracket**, and so are its arguments. -/
theorem parses_nested (hg : Language.grammar = .ok m.grammar) (h : m.Brackets start ls stop)
    (hquiet : m.IsQuiet stop) : ∀ (i : Nat) (rest : List Symbol),
    m.tokens.toList.drop i = openers ls.length ++ rest → start = ⟨i + 2 * ls.length + 1, 0⟩ →
      Parses m {} (.term (.rule "type")) ⟨i, 0⟩ (some ([nestedType i ls], stop)) ∧
        ∀ l ls', ls = l :: ls' → Parses m {} (.term (.rule "generic_args")) ⟨i + 1, 0⟩
          (some ([argsOf (.token (i + 1) .lt none) (nestedType (i + 2) ls') l], stop)) := by
  induction h with
  | nil =>
    rintro i rest hdrop rfl
    have ht := (getElem?_of_drop hdrop).1
    have hdisplays : m.Displays [⟨i, 0⟩, ⟨i + 1, 0⟩] [.token i .ident none] lastName.scene :=
      ⟨⟨(takes_u8 ht).shows, hquiet _ _, trivial⟩, by rintro hole ⟨⟩⟩
    refine ⟨parses_drawing hg (d := lastName) (by simp [drawings]) hdisplays, ?_⟩
    rintro l ls' ⟨⟩
  | @cons ls l mid stop hbrackets htakes ih =>
    rintro i rest hdrop rfl
    obtain ⟨htA, hdrop⟩ := getElem?_of_drop hdrop
    obtain ⟨htlt, hdrop⟩ := getElem?_of_drop hdrop
    have hmid : m.IsQuiet mid := htakes.shows.isQuiet (by decide) (by decide)
    have hstart : i + 2 * (l :: ls).length + 1 = i + 2 + 2 * ls.length + 1 := by
      rw [List.length_cons]
      omega
    rw [hstart] at hbrackets
    obtain ⟨htype, hargs⟩ := ih hmid (i + 2) rest hdrop (by rw [hstart])
    have h0 := (takes_A htA).shows
    have h1 := (takes_lt htlt).shows
    cases hbrackets with
    | nil =>
      have h2 := (takes_u8 (getElem?_of_drop hdrop).1).shows
      have hdisplays : m.Displays [⟨i, 0⟩, ⟨i + 1, 0⟩, ⟨i + 2, 0⟩, ⟨i + 2 + 1, 0⟩, stop]
          [.token i .ident none, .token (i + 1) .lt none, .token (i + 2) .ident none, l, default,
            nestedType (i + 2) []] aroundName := by
        refine ⟨⟨h0, h1, h2, htakes.shows, hquiet _ _, trivial⟩, ?_⟩
        rintro hole (_ | ⟨_, ⟨⟩⟩)
        exact htype
      refine ⟨parses_drawing hg (d := typeOfName) (by simp [drawings]) hdisplays, ?_⟩
      rintro l ls' ⟨⟩
      exact parses_drawing hg (d := argsOfName) (by simp [drawings]) hdisplays
    | @cons ls l' mid' _ hbrackets htakes' =>
      obtain ⟨htA', hdrop⟩ := getElem?_of_drop hdrop
      have h2 := (takes_A htA').shows
      have hkind := kindAt_of_getElem? (getElem?_of_drop hdrop).1
      have h3 : m.Shows first ⟨i + 2 + 1, 0⟩ default mid := shows_first (by rw [hkind]; decide)
      have hdisplays : m.Displays
          [⟨i, 0⟩, ⟨i + 1, 0⟩, ⟨i + 2, 0⟩, ⟨i + 2 + 1, 0⟩, mid, stop]
          [.token i .ident none, .token (i + 1) .lt none, .token (i + 2) .ident none,
            default, l, default, nestedType (i + 2) (l' :: ls),
            argsOf (.token (i + 2 + 1) .lt none) (nestedType (i + 2 + 2) ls) l'] aroundType := by
        refine ⟨⟨h0, h1, h2, h3, htakes.shows, hquiet _ _, trivial⟩, ?_⟩
        rintro hole (_ | ⟨_, _ | ⟨_, ⟨⟩⟩⟩)
        · exact htype
        · exact hargs l' ls rfl
      refine ⟨parses_drawing hg (d := typeOfType) (by simp [drawings]) hdisplays, ?_⟩
      rintro l ls' ⟨⟩
      exact parses_drawing hg (d := argsOfType) (by simp [drawings]) hdisplays

/-- Behind the closing brackets nothing goes on with the type, if nothing does so there. -/
theorem EndsAt.isQuiet {before : Bool} {e : Nat} (h : m.EndsAt before stop e)
    (hquiet : before = false → m.IsQuiet ⟨e, 0⟩) : m.IsQuiet stop := by
  cases before with
  | false =>
    obtain rfl : stop = ⟨e, 0⟩ := h
    exact hquiet rfl
  | true =>
    obtain ⟨_, heq⟩ := h
    exact heq.shows.isQuiet (by decide) (by decide)

/-- What is behind the closing brackets of a type. -/
theorem drop_nested {before : Bool} {i k : Nat} {rest : List Symbol}
    (hdrop : m.tokens.toList.drop i = openers k ++ (closers before k ++ rest)) :
    m.tokens.toList.drop (i + (openers k).length + (closers before k).length) = rest := by
  rw [← List.drop_drop, ← List.drop_drop, hdrop, List.drop_left, List.drop_left]

/-- **A nested type has its tree**, however its brackets are put together, and what is behind it is
left. -/
theorem exists_nestedType (hg : Language.grammar = .ok m.grammar) {before : Bool} {i k : Nat}
    {rest : List Symbol} (hdrop : m.tokens.toList.drop i = openers k ++ (closers before k ++ rest))
    {e : Nat} (he : e = i + (openers k).length + (closers before k).length)
    (hquiet : before = false → m.IsQuiet ⟨e, 0⟩) :
    ∃ n stop, Parses m {} (.term (.rule "type")) ⟨i, 0⟩ (some ([n], stop)) ∧
      Tree.bare? m.tokens n = some (nestedTree k) ∧ m.EndsAt before stop e := by
  have hclosing : m.tokens.toList.drop (i + (openers k).length) = closers before k ++ rest := by
    rw [← List.drop_drop, hdrop, List.drop_left]
  obtain ⟨ls, stop, hbrackets, rfl, hend⟩ := exists_brackets before k _ rest hclosing
  rw [← he] at hend
  have hstart : i + (openers ls.length).length = i + 2 * ls.length + 1 := by
    rw [length_openers, Nat.add_assoc]
  obtain ⟨htype, -⟩ := parses_nested hg hbrackets (hend.isQuiet hquiet) i _ hdrop (by rw [hstart])
  exact ⟨_, stop, htype, bare?_nestedType hbrackets i _ hdrop, hend⟩

/-- **A statement with a type is read** with whatever the type is, and an equals sign behind it
that may be what is left of a bracket. -/
theorem parses_binding (hg : Language.grammar = .ok m.grammar) {e : Nat}
    (hlet : m.tokens[0]? = some ⟨.letKw, "let"⟩) (hname : m.tokens[1]? = some ⟨.ident, "v"⟩)
    (hcolon : m.tokens[2]? = some ⟨.colon, ":"⟩) (hfirst : m.kindAt ⟨3, 0⟩ = .ident)
    (htype : Parses m {} (.term (.rule "type")) ⟨3, 0⟩ (some ([n], stop)))
    (heq : m.Takes (one .eq) stop l .eq "=" ⟨e, 0⟩)
    (hvalue : m.tokens[e]? = some ⟨.ident, "x"⟩)
    (hend : m.tokens[e + 1]? = some ⟨.semicolon, ";"⟩) :
    Parses m {} (.term (.rule "let_stmt")) ⟨0, 0⟩ (some ([boundType n l e], ⟨e + 1 + 1, 0⟩)) ∧
      ∀ t, Tree.bare? m.tokens n = some t →
        Tree.bare? m.tokens (boundType n l e) = some (bindingTree t) := by
  have hlet := takes_one hlet ⟨by decide, rfl⟩
  have hname := takes_one hname ⟨by decide, rfl⟩
  have hcolon := takes_one hcolon ⟨by decide, rfl⟩
  have hvalue := takes_one hvalue ⟨by decide, rfl⟩
  have hend := takes_one hend ⟨by decide, rfl⟩
  constructor
  · have h3 : m.Shows first ⟨3, 0⟩ default stop := shows_first (by rw [hfirst]; decide)
    have hdisplays : m.Displays
        [⟨0, 0⟩, ⟨1, 0⟩, ⟨2, 0⟩, ⟨3, 0⟩, stop, ⟨e, 0⟩, ⟨e + 1, 0⟩, ⟨e + 1 + 1, 0⟩]
        [.token 0 .letKw none, .token 1 .ident none, .token 2 .colon none, default, l,
          .token e .ident none, .token (e + 1) .semicolon none, n] binding.scene := by
      refine ⟨⟨hlet.shows, hname.shows, hcolon.shows, h3, heq.shows, hvalue.shows, hend.shows,
        trivial⟩, ?_⟩
      rintro hole (_ | ⟨_, ⟨⟩⟩)
      exact htype
    exact parses_drawing hg (d := binding) (by simp [drawings]) hdisplays
  · intro t ht
    simp [boundType, bindingTree, namedExpr, namedTree, Tree.bare?_node, Tree.bareAll?, hlet.bare,
      hname.bare, hcolon.bare, ht, heq.bare, hvalue.bare, hend.bare]

/-! ## References -/

/-- Ampersands stand side by side from a place on. -/
inductive Ampersands (m : Machine) : Pos → List Match → Pos → Prop where
  | nil {pos : Pos} : Ampersands m pos [] pos
  | cons {ls : List Match} {l : Match} {pos mid stop : Pos} :
    m.Takes ampersand pos l .amp "&" mid → Ampersands m mid ls stop →
      Ampersands m pos (l :: ls) stop

/-- However many ampersands there are, they can be read one by one. -/
theorem exists_ampersands : ∀ (n b : Nat) (rest : List Symbol),
    m.tokens.toList.drop b = ampersands n ++ rest → ∃ ls,
      m.Ampersands ⟨b, 0⟩ ls ⟨b + (ampersands n).length, 0⟩ ∧ ls.length = n
  | 0, b, rest, hdrop => ⟨[], .nil, rfl⟩
  | 1, b, rest, hdrop => by
    have hamp : (alone ⟨.amp, "&"⟩).Takes ampersand ⟨0, 0⟩ (.token 0 .amp none)
        .amp "&" ⟨1, 0⟩ := ⟨by decide, rfl⟩
    exact ⟨_, .cons (.of_alone (getElem?_of_drop hdrop).1 hamp) .nil, rfl⟩
  | n + 2, b, rest, hdrop => by
    obtain ⟨ht, hrest⟩ := getElem?_of_drop hdrop
    have hfirst : (alone ⟨.ampAmp, "&&"⟩).Takes ampersand ⟨0, 0⟩ (.token 0 .amp (some (0, 1)))
        .amp "&" ⟨0, 1⟩ := ⟨by decide, rfl⟩
    have hsecond : (alone ⟨.ampAmp, "&&"⟩).Takes ampersand ⟨0, 1⟩ (.token 0 .amp (some (1, 2)))
        .amp "&" ⟨1, 0⟩ := ⟨by decide, rfl⟩
    obtain ⟨ls, hamps, hlength⟩ := exists_ampersands n (b + 1) rest hrest
    have hindex : b + 1 + (ampersands n).length = b + (ampersands (n + 2)).length := by
      rw [ampersands, List.length_cons]
      omega
    rw [hindex] at hamps
    exact ⟨_, .cons (.of_alone ht hfirst) (.cons (.of_alone ht hsecond) hamps), by simp [hlength]⟩

/-- The first token of a reference begins an expression if its operand does. -/
theorem Ampersands.kindAt (h : m.Ampersands start ls stop) (hstop : m.kindAt stop ∈ first.kinds) :
    m.kindAt start ∈ first.kinds := by
  have hkinds : ampersand.kinds ⊆ first.kinds := by decide
  cases h with
  | nil => exact hstop
  | cons htakes _ => exact hkinds htakes.shows.kind

/-- The tree of a reference. -/
theorem bare?_referenced (h : m.Ampersands start ls stop) {t : Tree}
    (ht : Tree.bare? m.tokens n = some t) :
    Tree.bare? m.tokens (referenced ls n) = some (referenceTree t ls.length) := by
  induction h with
  | nil => exact ht
  | cons htakes _ ih =>
    simp [referenced, referenceTree, Tree.bare?_node, Tree.bareAll?, htakes.bare, ih]

/-- The tree of an identifier as an expression. -/
theorem bare?_namedExpr {word : List Char} (hword : Lexeme.IsIdentifier kind word)
    (ht : m.tokens[b]? = some ⟨kind, String.ofList word⟩) :
    Tree.bare? m.tokens (namedExpr (.token b kind none)) =
      some (namedTree kind (String.ofList word)) := by
  have hleaf : Tree.bare? m.tokens (.token b kind none) =
      some (.token kind (String.ofList word)) := by
    rw [Tree.bare?, ht]
    rcases hword.1 with rfl | rfl <;> rfl
  simp [namedExpr, namedTree, Tree.bare?_node, Tree.bareAll?, hleaf]

/-- Nothing is cut off an identifier. -/
theorem read?_split_identifier {word : List Char} (hword : Lexeme.IsIdentifier kind word)
    (ht : m.tokens[b]? = some ⟨kind, String.ofList word⟩) {kind' : Kind}
    (hkind' : kind' ∈ cutKinds) : kind ≠ kind' ∧ m.read? ⟨b, 0⟩ (.split kind') = none := by
  have hall : ∀ kind' ∈ cutKinds, kind' ≠ .ident ∧ kind' ≠ .rawIdent ∧
      ∀ spelling ∈ kind'.spelling?, spelling.toList.head?.any Lexeme.isBracketOrAmp = true := by
    decide
  obtain ⟨hident, hraw, hspell⟩ := hall kind' hkind'
  have hne : kind ≠ kind' := by
    rcases hword.1 with rfl | rfl
    · exact hident.symm
    · exact hraw.symm
  refine ⟨hne, ?_⟩
  simp only [read?, kindAt_of_getElem? ht, if_neg hne, Option.bind_eq_none_iff]
  refine fun spelling hspelling => if_neg ?_
  rintro ⟨-, hstart⟩
  obtain ⟨c, cs, rfl⟩ : ∃ c cs, word = c :: cs := by
    obtain ⟨-, before, c, cs, -, hcs⟩ := hword
    exact ⟨c, _, hcs⟩
  -- both begin with the same character, which is and is not a bracket or an ampersand
  have htext : m.textAt ⟨b, 0⟩ = String.ofList (c :: cs) := by simp [textAt, ht, Pos.isSplit]
  have hhead := hword.head.2.1
  obtain ⟨d, hd, hbracket⟩ := (Option.any_eq_true ..).mp (hspell spelling hspelling)
  obtain ⟨ds, hds⟩ := List.head?_eq_some_iff.mp hd
  rw [htext, String.toList_ofList, hds, List.isPrefixOf, Bool.and_eq_true, beq_iff_eq] at hstart
  rw [← hstart.1, hbracket] at hhead
  cases hhead

/-- An identifier has one of the sights of identifiers. -/
theorem exists_identifier {word : List Char} (hword : Lexeme.IsIdentifier kind word)
    (ht : m.tokens[b]? = some ⟨kind, String.ofList word⟩) : ∃ name ∈ identifiers,
      m.Shows name ⟨b, 0⟩ (.token b kind none) ⟨b + 1, 0⟩ := by
  have hkind := kindAt_of_getElem? ht
  have htext : m.textAt ⟨b, 0⟩ = String.ofList word := by simp [textAt, ht, Pos.isSplit]
  have hshows : ∀ words : List (String × Bool), (∀ known ∈ words,
      kind = .ident ∧ (String.ofList word = known.1 ↔ known.2 = true)) →
        m.Shows { one kind with words := words } ⟨b, 0⟩ (.token b kind none) ⟨b + 1, 0⟩ :=
    fun words hwords =>
      { kind := by rw [hkind]; exact List.mem_singleton_self _
        whole := fun kind' _ hone => by
          obtain rfl := List.singleton_inj.mp hone
          rfl
        cuts := fun kind' hcut => by
          obtain ⟨hmem, hsame⟩ := List.mem_filter.mp hcut
          exact absurd (of_decide_eq_true hsame).symm (read?_split_identifier hword ht hmem).1
        lacks := fun kind' hlack =>
          (read?_split_identifier hword ht (List.mem_filter.mp hlack).1).2
        words := fun known hknown => by
          rw [htext]
          obtain ⟨rfl, hiff⟩ := hwords known hknown
          exact ⟨rfl, hiff⟩ }
  rcases hword.1 with rfl | rfl
  · refine ⟨{ one .ident with words := [("raw", String.ofList word = "raw")] }, ?_, hshows _ ?_⟩
    · by_cases hraw : String.ofList word = "raw" <;> simp [identifiers, hraw]
    · rintro known (_ | ⟨_, ⟨⟩⟩)
      exact ⟨rfl, decide_eq_true_iff.symm⟩
  · exact ⟨one .rawIdent, by simp [identifiers], hshows [] (by rintro known ⟨⟩)⟩

/-- **A reference is read to its operand.** -/
theorem parses_references (hg : Language.grammar = .ok m.grammar) {e : Nat} {name : Sight}
    (hname : name ∈ identifiers) (hword : m.Shows name ⟨e, 0⟩ n ⟨e + 1, 0⟩)
    (hquiet : m.IsQuiet ⟨e + 1, 0⟩) (h : m.Ampersands start ls stop) (hstop : stop = ⟨e, 0⟩) :
    Parses m {} (.term (.rule "expr_unary")) start
      (some ([referenced ls (namedExpr n)], ⟨e + 1, 0⟩)) := by
  induction h with
  | nil =>
    subst hstop
    have hdisplays : m.Displays [⟨e, 0⟩, ⟨e + 1, 0⟩] [n] (lastOperand name).scene := by
      refine ⟨⟨hword, hquiet _ _, trivial⟩, ?_⟩
      rintro hole ⟨⟩
    refine parses_drawing hg (d := lastOperand name) ?_ hdisplays
    exact List.mem_append_left _ (List.mem_append_right _ (List.mem_map_of_mem hname))
  | @cons ls l pos mid stop htakes hrest ih =>
    have hoperand := ih hstop
    obtain ⟨operand, l', hmem, hshows⟩ : ∃ operand l', operand ∈ firstAmpersand :: identifiers ∧
        m.Shows operand mid l' ⟨e + 1, 0⟩ := by
      cases hrest with
      | nil => exact ⟨name, n, List.mem_cons_of_mem _ hname, hstop ▸ hword⟩
      | cons hnext =>
        exact ⟨firstAmpersand, default, List.mem_cons_self,
          shows_of_kind hnext.shows.kind (by rintro kind ⟨⟩)⟩
    have hdisplays : m.Displays [pos, mid, ⟨e + 1, 0⟩]
        [l, l', default, referenced ls (namedExpr n)] (reference operand).scene := by
      refine ⟨⟨htakes.shows, hshows, hquiet _ _, trivial⟩, ?_⟩
      rintro hole (_ | ⟨_, ⟨⟩⟩)
      exact hoperand
    refine parses_drawing hg (d := reference operand) ?_ hdisplays
    exact List.mem_append_right _ (List.mem_map_of_mem hmem)

/-- **An operand is an expression** at the end of a text. -/
theorem parses_onlyOperand (hg : Language.grammar = .ok m.grammar) {e : Nat}
    (hfirst : m.kindAt start ∈ first.kinds) (hend : m.tokens[e]? = some ⟨.eof, ""⟩)
    (h : Parses m {} (.term (.rule "expr_unary")) start (some ([n], ⟨e, 0⟩))) :
    Parses m {} (.term (.rule "expr")) start (some ([n], ⟨e, 0⟩)) := by
  have hdisplays : m.Displays [start, ⟨e, 0⟩, ⟨e + 1, 0⟩] [default, .token e .eof none, n]
      onlyOperand.scene := by
    refine ⟨⟨shows_first hfirst, shows_eof hend, trivial⟩, ?_⟩
    rintro hole (_ | ⟨_, ⟨⟩⟩)
    exact h
  exact parses_drawing hg (d := onlyOperand) (by simp [drawings]) hdisplays

end Peg.Machine
end Packrat
