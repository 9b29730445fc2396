/-
# The leaves of a built tree

Building a tree from matches puts trivia in between, and where they go depends on the nodes.
In the order of leaves it does not: a node that begins with a token takes that token's trivia
to itself, and then the token finds none left.  So the leaves of the trees are what building
makes of the leaves of the matches (`ofMatches_leaves`).
-/

import Packrat.Proofs.Peg.Tiling
import Packrat.Proofs.Text.Measure
import Packrat.Tree.Build

namespace Packrat
namespace Tree

open Peg

/-! ## Leaves in order -/

/-- The leaves of some trees, in order. -/
def leavesAll (ts : List Tree) : List (Kind × String) := ts.flatMap leaves

mutual

/-- Leaves before others are leaves and the others behind. -/
theorem leavesBefore_eq (rest : List (Kind × String)) :
    ∀ t : Tree, t.leavesBefore rest = t.leaves ++ rest
  | .token kind text => rfl
  | .node kind children => by
    rw [leavesBefore, leavesBeforeAll_eq rest children, leaves, leavesBefore,
      leavesBeforeAll_eq [] children, List.append_nil]

theorem leavesBeforeAll_eq (rest : List (Kind × String)) :
    ∀ ts : List Tree, leavesBeforeAll rest ts = leavesAll ts ++ rest
  | [] => rfl
  | t :: ts => by
    rw [leavesBeforeAll, leavesBefore_eq _ t, leavesBeforeAll_eq rest ts, leavesAll, leavesAll,
      List.flatMap_cons, List.append_assoc]

end

@[simp] theorem leavesAll_nil : leavesAll [] = [] := rfl

@[simp] theorem leavesAll_append (ts us : List Tree) :
    leavesAll (ts ++ us) = leavesAll ts ++ leavesAll us := List.flatMap_append

@[simp] theorem leavesAll_node (kind : Kind) (children : List Tree) :
    leavesAll [.node kind children] = leavesAll children := by
  rw [leavesAll, List.flatMap_cons, List.flatMap_nil, List.append_nil, leaves, leavesBefore,
    leavesBeforeAll_eq, List.append_nil]

@[simp] theorem leavesAll_token (kind : Kind) (text : String) :
    leavesAll [.token kind text] = [(kind, text)] := rfl

theorem leaves_node (kind : Kind) (children : List Tree) :
    (node kind children).leaves = leavesAll children := by
  rw [← leavesAll_node kind children, leavesAll, List.flatMap_cons, List.flatMap_nil,
    List.append_nil]

/-- The text of a part of a token is what stands between its two ends. -/
theorem textOfPart_eq {text mid : String} {pre rest : List Char} {start stop : UInt8}
    (htext : text.toList = pre ++ mid.toList ++ rest) (hstart : start.toNat = Text.byteSize pre)
    (hstop : stop.toNat = start.toNat + mid.utf8ByteSize) :
    textOfPart text (some (start, stop)) = mid := by
  have hslice : Text.slice? start.toNat stop.toNat text.toList = some mid.toList := by
    refine Text.slice?_eq_some_iff.mpr ⟨pre, rest, htext, hstart.symm, ?_⟩
    rw [Text.byteSize_toList, hstop, hstart]
  simp [textOfPart, hslice]

/-! ## Leaves of matches -/

variable {tokens : Array Token}

/-- What some matches become: their leaves, and the number of tokens whose trivia are in. -/
def rendered (tokens : Array Token) (done : Nat) (ms : List Match) : List (Kind × String) × Nat :=
  (leavesAll (ofMatches tokens done ms).1, (ofMatches tokens done ms).2)

theorem rendered_append (done : Nat) (ns ms : List Match) :
    rendered tokens done (ns ++ ms) =
      ((rendered tokens done ns).1 ++ (rendered tokens (rendered tokens done ns).2 ms).1,
        (rendered tokens (rendered tokens done ns).2 ms).2) := by
  induction ns generalizing done with
  | nil => rfl
  | cons n ns ih =>
    have h := ih (ofMatch tokens done n).2
    simp only [rendered, Prod.mk.injEq] at h
    simp only [rendered, List.cons_append, ofMatches, leavesAll_append, h.1, h.2,
      List.append_assoc]

/-- A leaf of a match is inside the stream. -/
def IsInside (tokens : Array Token) : Match → Prop
  | .token index _ _ => index < tokens.size
  | .node .. => False

/-- The leaves of trivia. -/
theorem leavesAll_map_ofTrivia (vs : List Trivia) :
    leavesAll (vs.map ofTrivia) = vs.map fun v => (v.kind.kind, v.text) := by
  induction vs with
  | nil => rfl
  | cons v vs ih =>
    rw [List.map_cons, List.map_cons, ← ih]
    rfl

/-- The trivia of one token. -/
theorem triviaUpTo_self {index : Nat} {t : Token} (ht : tokens[index]? = some t) :
    triviaUpTo tokens index index = (t.trivia.map ofTrivia, index + 1) := by
  obtain ⟨hlt, heq⟩ := Array.getElem?_eq_some_iff.mp ht
  have hstop : min (index + 1) tokens.size = index + 1 := Nat.min_eq_left hlt
  have hone : (tokens.extract index (index + 1)).toList = [t] := by
    rw [Array.toList_extract, List.extract_eq_take_drop, Nat.add_sub_cancel_left,
      List.drop_eq_getElem_cons (by simpa using hlt)]
    simp [heq]
  simp only [triviaUpTo, hstop, hone]
  simp

/-- Trivia that are in are not put in again. -/
theorem triviaUpTo_again (tokens : Array Token) (done index : Nat) :
    triviaUpTo tokens (triviaUpTo tokens done index).2 index =
      ([], (triviaUpTo tokens done index).2) := by
  have hle : min (index + 1) tokens.size ≤ max done (min (index + 1) tokens.size) :=
    Nat.le_max_right ..
  have hnone : tokens.extract (max done (min (index + 1) tokens.size))
      (min (index + 1) tokens.size) = #[] :=
    Array.extract_eq_empty_of_le (by omega)
  simp only [triviaUpTo, hnone, Nat.max_eq_left hle]
  rfl

theorem rendered_token {index : Nat} {t : Token} (ht : tokens[index]? = some t) (done : Nat)
    (kind : Kind) (part : Option (UInt8 × UInt8)) :
    rendered tokens done [.token index kind part] =
      (leavesAll (triviaUpTo tokens done index).1 ++ [(kind, textOfPart t.text part)],
        (triviaUpTo tokens done index).2) := by
  simp [rendered, ofMatches, ofMatch, ht]

mutual

/-- A match without leaves has no first token, and any other begins with that of its first
leaf. -/
theorem firstPos?_cases : ∀ n : Match, n.leaves = [] ∧ n.firstPos? = none ∨
    ∃ index kind part rest offset, n.leaves = .token index kind part :: rest ∧
      n.firstPos? = some ⟨index, offset⟩
  | .token index kind part => .inr ⟨index, kind, part, [], _, rfl, rfl⟩
  | .node _ children => firstPosOf?_cases children

theorem firstPosOf?_cases : ∀ ns : List Match,
    Match.leavesAll ns = [] ∧ Match.firstPosOf? ns = none ∨
    ∃ index kind part rest offset, Match.leavesAll ns = .token index kind part :: rest ∧
      Match.firstPosOf? ns = some ⟨index, offset⟩
  | [] => .inl ⟨rfl, rfl⟩
  | n :: ns => by
    rcases firstPos?_cases n with
      ⟨hleaves, hfirst⟩ | ⟨index, kind, part, rest, offset, hleaves, hfirst⟩
    · rw [Match.leavesAll, Match.firstPosOf?, hleaves, hfirst]
      exact firstPosOf?_cases ns
    · rw [Match.leavesAll, Match.firstPosOf?, hleaves, hfirst]
      exact .inr ⟨index, kind, part, _, offset, rfl, rfl⟩

end

/-- The trivia that a node takes to itself are those that its first leaf would take. -/
theorem rendered_node (kind : Kind) (children : List Match) (done : Nat)
    (hinside : ∀ l ∈ Match.leavesAll children, IsInside tokens l)
    (hchildren : ∀ done, rendered tokens done children =
      rendered tokens done (Match.leavesAll children)) :
    rendered tokens done [.node kind children] =
      rendered tokens done (Match.leavesAll children) := by
  have hnode : rendered tokens done [.node kind children] =
      match Match.firstPosOf? children with
      | none => rendered tokens done children
      | some first =>
        (leavesAll (triviaUpTo tokens done first.index).1 ++
          (rendered tokens (triviaUpTo tokens done first.index).2 children).1,
          (rendered tokens (triviaUpTo tokens done first.index).2 children).2) := by
    cases hfirst : Match.firstPosOf? children <;> simp [rendered, ofMatches, ofMatch, hfirst]
  rw [hnode]
  rcases firstPosOf?_cases children with
    ⟨-, hfirst⟩ | ⟨index, kind', part, rest, offset, hleaves, hfirst⟩
  · rw [hfirst]
    exact hchildren done
  · have hmem : Match.token index kind' part ∈ Match.leavesAll children := by
      rw [hleaves]
      exact List.mem_cons_self
    have hlt : index < tokens.size := hinside _ hmem
    have ht := Array.getElem?_eq_getElem hlt
    rw [hfirst]
    simp only [hchildren, hleaves]
    rw [← List.singleton_append, rendered_append, rendered_append, rendered_token ht,
      rendered_token ht, triviaUpTo_again]
    simp

mutual

theorem ofMatch_leaves : ∀ (n : Match) (done : Nat), (∀ l ∈ n.leaves, IsInside tokens l) →
    rendered tokens done [n] = rendered tokens done n.leaves
  | .token .., _, _ => rfl
  | .node kind children, done, hinside =>
    rendered_node kind children done hinside fun done => ofMatches_leaves children done hinside

/-- **Trees have the leaves that the leaves of the matches become.** -/
theorem ofMatches_leaves : ∀ (ns : List Match) (done : Nat),
    (∀ l ∈ Match.leavesAll ns, IsInside tokens l) →
    rendered tokens done ns = rendered tokens done (Match.leavesAll ns)
  | [], _, _ => rfl
  | n :: ns, done, hinside => by
    have hn : ∀ l ∈ n.leaves, IsInside tokens l := fun l hl =>
      hinside l (List.mem_append_left _ hl)
    have hns : ∀ l ∈ Match.leavesAll ns, IsInside tokens l := fun l hl =>
      hinside l (List.mem_append_right _ hl)
    rw [← List.singleton_append, rendered_append, ofMatch_leaves n done hn,
      ofMatches_leaves ns _ hns, List.singleton_append, Match.leavesAll, rendered_append]

end

end Tree
end Packrat
