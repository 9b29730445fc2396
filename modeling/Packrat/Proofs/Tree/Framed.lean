/-
# Where nodes begin and end

A node of a built tree begins and ends with a significant leaf (`Tree.Framed`), if there is a token
under every node of the matches.  The trivia of its first token have been put in before it: a node
takes them to where it stands before its own leaves are put in, and then that token finds none left.
Behind its last token nothing has been put in yet.

The root is no such node, since the trivia at both ends of the text and its end stand right below
it.
-/

import Packrat.Proofs.Peg.Filled
import Packrat.Proofs.Tree.Build

namespace Packrat
namespace Tree

open Peg

/-- The first and the last of some leaves are significant. -/
structure AreFramed (ls : List (Kind × String)) : Prop where
  first : ∃ l, ls.head? = some l ∧ l.1.isSignificant = true
  last : ∃ l, ls.getLast? = some l ∧ l.1.isSignificant = true

/-- All nodes begin and end with significant leaves. -/
inductive Framed : Tree → Prop where
  | token {kind text} : Framed (.token kind text)
  | node {kind children} : AreFramed (leavesAll children) → (∀ c ∈ children, Framed c) →
    Framed (.node kind children)

/-- A node begins and ends with significant leaves. -/
theorem Framed.areFramed {t : Tree} (h : t.Framed) (hnode : t.isNode = true) :
    AreFramed t.leaves := by
  cases h with
  | token => cases hnode
  | node hends _ => rwa [leaves_node]

theorem Framed.of_mem_children {t c : Tree} (h : t.Framed) (hc : c ∈ t.children) : c.Framed := by
  cases h with
  | token => cases hc
  | node _ hchildren => exact hchildren c hc

/-- Leaves of matches that become significant leaves. -/
def AreShown (tokens : Array Token) (ls : List Match) : Prop :=
  ∀ l ∈ ls, IsInside tokens l ∧ l.kind.isSignificant = true

variable {tokens : Array Token}

/-- Leaves are of tokens of the stream. -/
theorem AreShown.exists_token {ls : List Match} (h : AreShown tokens ls) {l : Match} (hl : l ∈ ls) :
    ∃ index kind part t, l = .token index kind part ∧ tokens[index]? = some t ∧
      kind.isSignificant = true := by
  obtain ⟨hinside, hkind⟩ := h l hl
  cases l with
  | token index kind part => exact ⟨index, kind, part, _, rfl, Array.getElem?_eq_getElem hinside,
      hkind⟩
  | node => cases hinside

/-- Leaves end with what their last one becomes. -/
theorem getLast?_rendered {ls : List Match} (h : AreShown tokens ls) (hne : ls ≠ []) (done : Nat) :
    ∃ l, (rendered tokens done ls).1.getLast? = some l ∧ l.1.isSignificant = true := by
  obtain ⟨index, kind, part, t, hlast, ht, hkind⟩ := h.exists_token (List.getLast_mem hne)
  rw [← List.dropLast_append_getLast hne, hlast, rendered_append, rendered_token ht]
  refine ⟨(kind, textOfPart t.text part), ?_, hkind⟩
  simp [← List.append_assoc]

/-- Leaves begin with what their first one becomes, when its trivia are in. -/
theorem head?_rendered {index : Nat} {kind : Kind} {part : Option (UInt8 × UInt8)}
    {rest : List Match} (h : AreShown tokens (.token index kind part :: rest)) (done : Nat) :
    ∃ l, (rendered tokens (triviaUpTo tokens done index).2
      (.token index kind part :: rest)).1.head? = some l ∧ l.1.isSignificant = true := by
  obtain ⟨hinside, hkind⟩ := h _ List.mem_cons_self
  have ht := Array.getElem?_eq_getElem hinside
  rw [← List.singleton_append, rendered_append, rendered_token ht, triviaUpTo_again]
  exact ⟨_, rfl, hkind⟩

/-- The leaves under a node, when the trivia of the first are in. -/
theorem areFramed_ofMatches {children : List Match} {index : Nat} {kind : Kind}
    {part : Option (UInt8 × UInt8)} {rest : List Match}
    (h : AreShown tokens (Match.leavesAll children))
    (hleaves : Match.leavesAll children = .token index kind part :: rest) (done : Nat) :
    AreFramed (leavesAll (ofMatches tokens (triviaUpTo tokens done index).2 children).1) := by
  have heq := ofMatches_leaves children (triviaUpTo tokens done index).2 fun l hl => (h l hl).1
  have hfst : leavesAll (ofMatches tokens (triviaUpTo tokens done index).2 children).1 =
      (rendered tokens (triviaUpTo tokens done index).2 (Match.leavesAll children)).1 :=
    congrArg Prod.fst heq
  rw [hfst]
  rw [hleaves] at h ⊢
  exact ⟨head?_rendered h done, getLast?_rendered h (List.cons_ne_nil _ _) _⟩

theorem framed_ofTrivia {vs : List Trivia} {t : Tree} (h : t ∈ vs.map ofTrivia) : t.Framed := by
  obtain ⟨v, -, rfl⟩ := List.mem_map.mp h
  exact .token

mutual

theorem framed_ofMatch : ∀ (n : Match) (done : Nat), n.IsFilled → AreShown tokens n.leaves →
    ∀ t ∈ (ofMatch tokens done n).1, t.Framed
  | .token index kind part, done, _, _ => by
    intro t ht
    rw [ofMatch] at ht
    split at ht
    · cases ht
    · rcases List.mem_append.mp ht with ht | ht
      · exact framed_ofTrivia ht
      · obtain rfl := List.mem_singleton.mp ht
        exact .token
  | .node kind children, done, hfilled, hshown => by
    intro t ht
    cases hfilled with
    | node hne hchildren =>
      rcases firstPosOf?_cases children with
        ⟨hnil, -⟩ | ⟨index, kind', part, rest, offset, hleaves, hfirst⟩
      · exact absurd hnil hne
      · rw [ofMatch, hfirst] at ht
        rcases List.mem_append.mp ht with ht | ht
        · exact framed_ofTrivia ht
        · obtain rfl := List.mem_singleton.mp ht
          exact .node (areFramed_ofMatches hshown hleaves done)
            (framed_ofMatches children _ hchildren hshown)

/-- **Nodes begin and end on significant leaves.** -/
theorem framed_ofMatches : ∀ (ns : List Match) (done : Nat), (∀ n ∈ ns, n.IsFilled) →
    AreShown tokens (Match.leavesAll ns) → ∀ t ∈ (ofMatches tokens done ns).1, t.Framed
  | [], _, _, _ => by simp [ofMatches]
  | n :: ns, done, hfilled, hshown => by
    intro t ht
    rw [ofMatches] at ht
    rcases List.mem_append.mp ht with ht | ht
    · exact framed_ofMatch n done (hfilled n List.mem_cons_self)
        (fun l hl => hshown l (List.mem_append_left _ hl)) t ht
    · exact framed_ofMatches ns _ (fun n hn => hfilled n (List.mem_cons_of_mem _ hn))
        (fun l hl => hshown l (List.mem_append_right _ hl)) t ht

end

/-- The trees under the root of a whole stream. -/
theorem framed_build {s : TokenStream} (root : Kind) {ns : List Match}
    (hfilled : ∀ n ∈ ns, n.IsFilled) (hshown : AreShown s.tokens (Match.leavesAll ns)) :
    ∀ t ∈ (build s root ns).children, t.Framed := by
  have hmatches := framed_ofMatches ns 0 hfilled hshown
  intro t ht
  unfold build at ht
  cases heof : s.tokens.back? with
  | none =>
    rw [heof] at ht
    exact hmatches t ht
  | some eof =>
    rw [heof] at ht
    rcases List.mem_append.mp ht with ht | ht
    · exact (List.mem_append.mp ht).elim (hmatches t) framed_ofTrivia
    · obtain rfl := List.mem_singleton.mp ht
      exact .token

end Tree
end Packrat
