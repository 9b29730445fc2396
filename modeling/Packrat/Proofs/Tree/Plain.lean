/-
# Trees without trivia

Without its trivia (`Tree.withoutTrivia`) a tree has the same nodes and all other leaves.  In which
node trivia stand depends on where nodes begin: they go before the outermost node that begins with
their token.  What is built around them does not depend on them.  It takes the matches, the number
of tokens, which tells how far trivia have been put in, and the texts of tokens; so streams whose
tokens have the same kinds and texts have the same trees (`Tree.withoutTrivia_build`).  Where the
matches are known, the tree can be read off them (`Tree.bare?`, `Tree.withoutTrivia_build_bare`).
-/

import Packrat.Proofs.Token.Cut
import Packrat.Proofs.Tree.Build

namespace Packrat
namespace Tree

open Peg

/-- The tree is a leaf of trivia. -/
def isTrivia : Tree → Bool
  | token kind _ => kind.isTrivia
  | node .. => false

mutual

/-- The tree without the trivia below it. -/
def withoutTrivia : Tree → Tree
  | token kind text => .token kind text
  | node kind children => .node kind (withoutTriviaAll children)

/-- The trees without the trivia among and below them. -/
def withoutTriviaAll : List Tree → List Tree
  | [] => []
  | t :: ts =>
    if t.isTrivia then withoutTriviaAll ts else t.withoutTrivia :: withoutTriviaAll ts

end

@[simp] theorem withoutTriviaAll_nil : withoutTriviaAll [] = [] := rfl

@[simp] theorem withoutTriviaAll_append (ts us : List Tree) :
    withoutTriviaAll (ts ++ us) = withoutTriviaAll ts ++ withoutTriviaAll us := by
  induction ts with
  | nil => rfl
  | cons t ts ih =>
    simp only [List.cons_append, withoutTriviaAll, ih]
    split <;> rfl

@[simp] theorem withoutTriviaAll_node (kind : Kind) (children : List Tree) :
    withoutTriviaAll [.node kind children] = [.node kind (withoutTriviaAll children)] := rfl

/-- Nothing is left of trivia. -/
@[simp] theorem withoutTriviaAll_map_ofTrivia (vs : List Trivia) :
    withoutTriviaAll (vs.map ofTrivia) = [] := by
  induction vs with
  | nil => rfl
  | cons v vs ih =>
    have htrivia : (ofTrivia v).isTrivia = true := Kind.isTrivia_kind v.kind
    rw [List.map_cons, withoutTriviaAll, if_pos htrivia, ih]

/-- **Only trivia are taken away**: the other leaves stay, in order. -/
theorem leavesAll_withoutTriviaAll : ∀ ts : List Tree,
    leavesAll (withoutTriviaAll ts) = (leavesAll ts).filter (!·.1.isTrivia)
  | [] => rfl
  | .token kind text :: ts => by
    have hrest := leavesAll_withoutTriviaAll ts
    rw [withoutTriviaAll, isTrivia, ← List.singleton_append (l := ts), leavesAll_append,
      leavesAll_token, List.filter_append, ← hrest]
    cases hkind : kind.isTrivia with
    | true => simp [hkind]
    | false => simp [hkind, withoutTrivia, leavesAll, leaves, leavesBefore]
  | .node kind children :: ts => by
    have hchildren := leavesAll_withoutTriviaAll children
    have hrest := leavesAll_withoutTriviaAll ts
    rw [← List.singleton_append, withoutTriviaAll_append, leavesAll_append, leavesAll_append,
      withoutTriviaAll_node, leavesAll_node, leavesAll_node, List.filter_append, hchildren, hrest]

/-! ## Built trees -/

/-- Two results of building are the same without trivia, and have come equally far. -/
def SamePlain (built built' : List Tree × Nat) : Prop :=
  withoutTriviaAll built'.1 = withoutTriviaAll built.1 ∧ built'.2 = built.2

variable {tokens tokens' : Array Token}

/-- Nothing is left of the trivia that are put in. -/
@[simp] theorem withoutTriviaAll_triviaUpTo (tokens : Array Token) (done index : Nat) :
    withoutTriviaAll (triviaUpTo tokens done index).1 = [] := withoutTriviaAll_map_ofTrivia _

/-- How far trivia have been put in is told by the number of tokens. -/
theorem triviaUpTo_of_size (h : tokens'.size = tokens.size) (done index : Nat) :
    (triviaUpTo tokens' done index).2 = (triviaUpTo tokens done index).2 := by
  simp only [triviaUpTo, h]

/-- Tokens of the same kinds and texts are equally many. -/
theorem size_of_symbols (h : tokens'.map Token.symbol = tokens.map Token.symbol) :
    tokens'.size = tokens.size := by
  simpa using congrArg Array.size h

mutual

theorem ofMatch_samePlain (h : tokens'.map Token.symbol = tokens.map Token.symbol) :
    ∀ (n : Match) (done : Nat), SamePlain (ofMatch tokens done n) (ofMatch tokens' done n)
  | .token index kind part, done => by
    have hsymbol : tokens'[index]?.map Token.symbol = tokens[index]?.map Token.symbol := by
      rw [← Array.getElem?_map, ← Array.getElem?_map, h]
    cases ht : tokens[index]? with
    | none =>
      rw [ht, Option.map_none, Option.map_eq_none_iff] at hsymbol
      rw [ofMatch, ofMatch, ht, hsymbol]
      exact ⟨rfl, rfl⟩
    | some t =>
      rw [ht, Option.map_some] at hsymbol
      obtain ⟨t', ht', hsame⟩ := Option.map_eq_some_iff.mp hsymbol
      have htext : t'.text = t.text := congrArg Symbol.text hsame
      rw [ofMatch, ofMatch, ht, ht']
      simp only [SamePlain, withoutTriviaAll_append, withoutTriviaAll_triviaUpTo, htext, true_and]
      exact triviaUpTo_of_size (size_of_symbols h) done index
  | .node kind children, done => by
    cases hfirst : Match.firstPosOf? children with
    | none =>
      obtain ⟨hchildren, hend⟩ := ofMatches_samePlain h children done
      simp only [SamePlain, ofMatch, hfirst, List.nil_append, withoutTriviaAll_node, hchildren,
        true_and]
      exact hend
    | some first =>
      have hdone := triviaUpTo_of_size (size_of_symbols h) done first.index
      obtain ⟨hchildren, hend⟩ :=
        ofMatches_samePlain h children (triviaUpTo tokens done first.index).2
      simp only [SamePlain, ofMatch, hfirst, withoutTriviaAll_append, withoutTriviaAll_node,
        withoutTriviaAll_triviaUpTo, hdone, hchildren, true_and]
      exact hend

/-- **Trees that are built of the same matches**, over tokens of the same kinds and texts, are the
same without trivia. -/
theorem ofMatches_samePlain (h : tokens'.map Token.symbol = tokens.map Token.symbol) :
    ∀ (ns : List Match) (done : Nat),
      SamePlain (ofMatches tokens done ns) (ofMatches tokens' done ns)
  | [], _ => ⟨rfl, rfl⟩
  | n :: ns, done => by
    obtain ⟨hfirst, hdone⟩ := ofMatch_samePlain h n done
    obtain ⟨hothers, hend⟩ := ofMatches_samePlain h ns (ofMatch tokens done n).2
    simp only [SamePlain, ofMatches, withoutTriviaAll_append, hfirst, hdone, hothers, true_and]
    exact hend

end

/-- **Trivia do not show** in the tree of a stream without its trivia. -/
theorem withoutTrivia_build {s s' : TokenStream}
    (h : s'.tokens.map Token.symbol = s.tokens.map Token.symbol) (root : Kind) (ns : List Match) :
    (build s' root ns).withoutTrivia = (build s root ns).withoutTrivia := by
  have hsymbol : s'.tokens.back?.map Token.symbol = s.tokens.back?.map Token.symbol := by
    rw [← Array.back?_map, ← Array.back?_map, h]
  obtain ⟨htrees, -⟩ := ofMatches_samePlain h ns 0
  cases heof : s.tokens.back? with
  | none =>
    rw [heof, Option.map_none, Option.map_eq_none_iff] at hsymbol
    simp only [build, heof, hsymbol, withoutTrivia, htrees]
  | some eof =>
    rw [heof, Option.map_some] at hsymbol
    obtain ⟨eof', heof', hsame⟩ := Option.map_eq_some_iff.mp hsymbol
    have htext : eof'.text = eof.text := congrArg Symbol.text hsame
    simp only [build, heof, heof', withoutTrivia, withoutTriviaAll_append, htrees, htext,
      withoutTriviaAll_triviaUpTo]

/-! ## Trees told from matches -/

mutual

/-- The tree of a match without trivia, if its leaves are tokens that are there and no trivia. -/
def bare? (symbols : Array Symbol) : Match → Option Tree
  | .token index kind part => symbols[index]?.bind fun symbol =>
    if kind.isTrivia then none else some (.token kind (textOfPart symbol.text part))
  | .node kind children => (bareAll? symbols children).map (.node kind)

/-- The trees of some matches without trivia. -/
def bareAll? (symbols : Array Symbol) : List Match → Option (List Tree)
  | [] => some []
  | n :: ns => (bare? symbols n).bind fun t => (bareAll? symbols ns).map (t :: ·)

end

theorem bare?_node (symbols : Array Symbol) (kind : Kind) (children : List Match) :
    bare? symbols (.node kind children) = (bareAll? symbols children).map (.node kind) := rfl

mutual

theorem withoutTriviaAll_ofMatch : ∀ {n : Match} {t : Tree} (done : Nat),
    bare? (tokens.map Token.symbol) n = some t → withoutTriviaAll (ofMatch tokens done n).1 = [t]
  | .token index kind part, t, done, h => by
    rw [bare?, Array.getElem?_map] at h
    obtain ⟨symbol, hsymbol, h⟩ := Option.bind_eq_some_iff.mp h
    obtain ⟨token, htoken, rfl⟩ := Option.map_eq_some_iff.mp hsymbol
    split_ifs at h with htrivia
    cases h
    rw [ofMatch, htoken]
    simp [withoutTriviaAll, isTrivia, htrivia, withoutTrivia, Token.symbol]
  | .node kind children, t, done, h => by
    rw [bare?] at h
    obtain ⟨ts, hchildren, rfl⟩ := Option.map_eq_some_iff.mp h
    rw [ofMatch]
    cases Match.firstPosOf? children with
    | none => simp [withoutTriviaAll_ofMatches _ hchildren]
    | some first => simp [withoutTriviaAll_ofMatches _ hchildren]

/-- **What is built of matches** is told from their leaves, but for the trivia. -/
theorem withoutTriviaAll_ofMatches : ∀ {ns : List Match} {ts : List Tree} (done : Nat),
    bareAll? (tokens.map Token.symbol) ns = some ts →
      withoutTriviaAll (ofMatches tokens done ns).1 = ts
  | [], _, _, h => by
    cases h
    rfl
  | n :: ns, ts, done, h => by
    rw [bareAll?] at h
    obtain ⟨t, hfirst, h⟩ := Option.bind_eq_some_iff.mp h
    obtain ⟨us, hrest, rfl⟩ := Option.map_eq_some_iff.mp h
    rw [ofMatches, withoutTriviaAll_append, withoutTriviaAll_ofMatch done hfirst,
      withoutTriviaAll_ofMatches _ hrest]
    rfl

end

/-- The tree of a whole stream without trivia: those of its matches, and the end of the text. -/
theorem withoutTrivia_build_bare {s : TokenStream} {ns : List Match} {ts : List Tree}
    (h : bareAll? (s.tokens.map Token.symbol) ns = some ts) {before : List Symbol}
    (heof : s.tokens.toList.map Token.symbol = before ++ [⟨.eof, ""⟩]) (root : Kind) :
    (build s root ns).withoutTrivia = .node root (ts ++ [.token .eof ""]) := by
  have hback : s.tokens.back?.map Token.symbol = some ⟨.eof, ""⟩ := by
    rw [← Array.getLast?_toList, ← List.getLast?_map, heof, List.getLast?_concat]
  obtain ⟨eof, hlast, hsymbol⟩ := Option.map_eq_some_iff.mp hback
  have htext : eof.text = "" := congrArg Symbol.text hsymbol
  have htrees := withoutTriviaAll_ofMatches 0 h
  simp only [build, hlast, withoutTrivia, withoutTriviaAll_append, htrees, htext,
    withoutTriviaAll_triviaUpTo, List.append_nil]
  rfl

end Tree
end Packrat
