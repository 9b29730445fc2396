/-
# Token trees are the balanced groups

Reading from the left, the brackets that are open can be kept in a stack (`Language.turn?`).  A
bracket begins a group if, with it as the only one open, the stack runs empty before the end of the
text and before a bracket closes another one than the last (`Language.groupSize?`).

A token tree is found at a token exactly if a group begins there, and it is the group
(`Machine.eval_tokenTree`): one node over all of its tokens, in which every bracket has a node of
its own with the one that closes it (`Match.IsGroup`).

| the rule comes to | the stack |
| --- | --- |
| a token that is no bracket | stays |
| a group | is again what it was, behind the group |
| a bracket without a group | never runs empty, whatever was in it |
-/

import Packrat.Proofs.Language.Nesting
import Packrat.Proofs.Language.Operand
import Packrat.Proofs.Peg.Afresh

namespace Packrat

/-! ## Groups -/

namespace Language

/-- Number of tokens up to the one that closes the last of the brackets that are open. -/
def sizeToClose? (opened : List Kind) : List Kind → Option Nat
  | [] => none
  | kind :: kinds =>
    if kind = .eof then none
    else
      match turn? opened kind with
      | none => none
      | some [] => some 1
      | some opened => (sizeToClose? opened kinds).map (· + 1)

/-- Number of tokens of the group that begins with the first token. -/
def groupSize? : List Kind → Option Nat
  | [] => none
  | opening :: kinds =>
    if opening.isOpening then (sizeToClose? [opening] kinds).map (· + 1) else none

variable {opened kinds : List Kind} {opening closing kind : Kind}

theorem isOpening_iff :
    kind.isOpening = true ↔ kind = .lParen ∨ kind = .lBracket ∨ kind = .lBrace := by
  unfold Kind.isOpening
  split <;> simp_all

theorem exists_closedBy? (h : opening.isOpening = true) :
    ∃ closing, opening.closedBy? = some closing := by
  rcases isOpening_iff.mp h with rfl | rfl | rfl
  · exact ⟨.rParen, rfl⟩
  · exact ⟨.rBracket, rfl⟩
  · exact ⟨.rBrace, rfl⟩

theorem closedBy?_cases (h : opening.closedBy? = some closing) :
    opening = .lParen ∧ closing = .rParen ∨ opening = .lBracket ∧ closing = .rBracket ∨
      opening = .lBrace ∧ closing = .rBrace := by
  unfold Kind.closedBy? at h
  split at h <;> simp_all

theorem isOpening_of_closedBy? (h : opening.closedBy? = some closing) :
    opening.isOpening = true ∧ closing.isClosing = true := by
  rcases closedBy?_cases h with ⟨rfl, rfl⟩ | ⟨rfl, rfl⟩ | ⟨rfl, rfl⟩ <;> exact ⟨rfl, rfl⟩

/-- One bracket more is open. -/
theorem sizeToClose?_opening (h : opening.isOpening = true) :
    sizeToClose? opened (opening :: kinds) =
      (sizeToClose? (opening :: opened) kinds).map (· + 1) := by
  have heof : opening ≠ .eof := by
    rintro rfl
    cases h
  simp [sizeToClose?, turn?, h, heof]

/-- A token that is no bracket changes nothing. -/
theorem sizeToClose?_plain (hopen : kind.isOpening = false) (hclose : kind.isClosing = false)
    (heof : kind ≠ .eof) (hne : opened ≠ []) :
    sizeToClose? opened (kind :: kinds) = (sizeToClose? opened kinds).map (· + 1) := by
  cases opened with
  | nil => exact absurd rfl hne
  | cons last rest => simp [sizeToClose?, turn?, hopen, hclose, heof]

/-- A bracket closes the last one, or none. -/
theorem sizeToClose?_closing (hclose : kind.isClosing = true) :
    sizeToClose? (opening :: opened) (kind :: kinds) =
      if opening.closedBy? = some kind then
        if opened = [] then some 1 else (sizeToClose? opened kinds).map (· + 1)
      else none := by
  have hopen : kind.isOpening = false := by
    cases hopen : kind.isOpening with
    | false => rfl
    | true => rcases isOpening_iff.mp hopen with rfl | rfl | rfl <;> cases hclose
  have heof : kind ≠ .eof := by
    rintro rfl
    cases hclose
  by_cases hpair : opening.closedBy? = some kind
  · cases opened <;> simp [sizeToClose?, turn?, hopen, hclose, heof, hpair]
  · simp [sizeToClose?, turn?, hopen, hclose, heof, hpair]

end Language

namespace Peg

open Packrat.Language

/-! ## Trees of groups -/

mutual

/-- A node over a bracket, the one that closes it, and what may stand between them. -/
inductive Match.IsGroup : Match → Prop where
  | node {i j : Nat} {opening closing : Kind} {ns : List Match} :
    opening.closedBy? = some closing → Match.AreInside ns →
    Match.IsGroup (.node .tokenTree (.token i opening none :: (ns ++ [.token j closing none])))

/-- Whole tokens that are no brackets, and groups. -/
inductive Match.AreInside : List Match → Prop where
  | nil : Match.AreInside []
  | token {i : Nat} {kind : Kind} {ns : List Match} : kind.isOpening = false →
    kind.isClosing = false → Match.AreInside ns → Match.AreInside (.token i kind none :: ns)
  | group {n : Match} {ns : List Match} : Match.IsGroup n → Match.AreInside ns →
    Match.AreInside (n :: ns)

end

/-! ## The rules -/

namespace Grammar

variable (g : Grammar)

/-- A rule reads groups: a bracket, what the rule `tt` reads, and the bracket that closes it. -/
def isTokenTreeRule : Rule → Bool
  | ⟨_, some .tokenTree, none, none, .choice [
      .seq [.token .lParen, .star (.ref a), .token .rParen],
      .seq [.token .lBracket, .star (.ref b), .token .rBracket],
      .seq [.token .lBrace, .star (.ref c), .token .rBrace]]⟩ =>
    g.refersTo a "tt" && g.refersTo b "tt" && g.refersTo c "tt"
  | _ => false

/-- A rule reads a group, or a token that is no bracket. -/
def isInsideRule : Rule → Bool
  | ⟨_, none, some _, none, .choice [.ref r, .any]⟩ => g.refersTo r "token_tree"
  | _ => false

/-- The rules for groups are as expected. -/
def hasTokenTrees : Bool :=
  g.hasRule "token_tree" g.isTokenTreeRule && g.hasRule "tt" g.isInsideRule

end Grammar

theorem hasTokenTrees_grammar {g : Grammar} (hg : grammar = .ok g) : g.hasTokenTrees = true :=
  of_coded (by decide +kernel) hg

namespace Machine

variable {m : Machine} {f : Flags} {i j n : Nat} {r : RuleRef} {opening closing kind : Kind}
  {ns : List Match}

/-- The kinds of the tokens from token `i` on. -/
def kindsFrom (m : Machine) (i : Nat) : List Kind := (m.tokens.toList.drop i).map (·.kind)

/-- The leaves for `n` whole tokens from token `i` on. -/
def wholeTokens (m : Machine) (i n : Nat) : List Match :=
  (List.range' i n).map fun k => .token k (m.kindAt ⟨k, 0⟩) none

theorem kindsFrom_cons {kinds : List Kind} (h : m.kindsFrom i = kind :: kinds) :
    m.kindAt ⟨i, 0⟩ = kind ∧ m.kindsFrom (i + 1) = kinds := by
  obtain ⟨symbol, rest, hdrop, rfl, rfl⟩ := List.map_eq_cons_iff.mp h
  obtain ⟨hget, hrest⟩ := getElem?_of_drop hdrop
  exact ⟨kindAt_of_getElem? hget, by rw [kindsFrom, hrest]⟩

theorem kindsFrom_nil (h : m.kindsFrom i = []) : m.kindAt ⟨i, 0⟩ = .eof := by
  have hle : m.tokens.toList.length ≤ i := List.drop_eq_nil_iff.mp (List.map_eq_nil_iff.mp h)
  have hnone : m.tokens[i]? = none := Array.getElem?_eq_none hle
  simp [kindAt, hnone]

theorem kindsFrom_of_ne_eof (h : m.kindAt ⟨i, 0⟩ ≠ .eof) :
    m.kindsFrom i = m.kindAt ⟨i, 0⟩ :: m.kindsFrom (i + 1) := by
  cases hkinds : m.kindsFrom i with
  | nil => exact absurd (kindsFrom_nil hkinds) h
  | cons kind kinds =>
    obtain ⟨hkind, hrest⟩ := kindsFrom_cons hkinds
    rw [hkind, hrest]

/-- At the end of the text nothing is closed. -/
theorem sizeToClose?_eof (h : m.kindAt ⟨i, 0⟩ = .eof) (opened : List Kind) :
    sizeToClose? opened (m.kindsFrom i) = none := by
  cases hkinds : m.kindsFrom i with
  | nil => rfl
  | cons kind kinds =>
    rw [← (kindsFrom_cons hkinds).1, h]
    exact if_pos rfl

theorem wholeTokens_add (m : Machine) (i k n : Nat) :
    m.wholeTokens i (k + n) = m.wholeTokens i k ++ m.wholeTokens (i + k) n := by
  rw [wholeTokens, ← List.range'_append_1, List.map_append]
  rfl

theorem wholeTokens_one (h : m.kindAt ⟨i, 0⟩ = kind) :
    m.wholeTokens i 1 = [.token i kind none] := by
  rw [← h]
  rfl

/-- One token as a leaf. -/
theorem leafAt_whole (m : Machine) (i : Nat) (kind : Kind) :
    m.leafAt ⟨i, 0⟩ kind = ([.token i kind none], ⟨i + 1, 0⟩) := rfl

/-- A bracket, what is inside, and the bracket that is there or not. -/
theorem parses_between (hopen : m.kindAt ⟨i, 0⟩ = opening)
    (hinside : Parses m f (.term (.star (.ref r))) ⟨i + 1, 0⟩ (some (ns, ⟨j, 0⟩))) :
    Parses m f (.term (.seq [.token opening, .star (.ref r), .token closing])) ⟨i, 0⟩
      (if m.kindAt ⟨j, 0⟩ = closing then
        some (.token i opening none :: (ns ++ [.token j closing none]), ⟨j + 1, 0⟩) else none) := by
  have hrest : Parses m f (.term (.seq [.token closing])) ⟨j, 0⟩
      (if m.kindAt ⟨j, 0⟩ = closing then some ([.token j closing none], ⟨j + 1, 0⟩) else none) := by
    split
    · next hclose => exact .seq_cons (.token hclose) .seq_nil
    · next hclose => exact .seq_no_token hclose
  have hall := Parses.seq_cons (.token hopen) (.seq_cons hinside hrest)
  split
  · next hclose => rwa [if_pos hclose] at hall
  · next hclose => rwa [if_neg hclose] at hall

/-- A bracket is read with all up to the one that closes it, or not at all. -/
theorem parses_tokenTree (hg : m.grammar.hasTokenTrees = true)
    (hr : m.grammar.refersTo r "token_tree" = true) (hpair : opening.closedBy? = some closing)
    (hopen : m.kindAt ⟨i, 0⟩ = opening)
    (hinside : ∀ r, m.grammar.refersTo r "tt" = true →
      Parses m f (.term (.star (.ref r))) ⟨i + 1, 0⟩ (some (ns, ⟨j, 0⟩))) :
    Parses m f (.term (.ref r)) ⟨i, 0⟩
      (if m.kindAt ⟨j, 0⟩ = closing then
        some ([.node .tokenTree (.token i opening none :: (ns ++ [.token j closing none]))],
          ⟨j + 1, 0⟩)
      else none) := by
  obtain ⟨hrule, -⟩ := Bool.and_eq_true_iff.mp hg
  obtain ⟨id, rule, hid, hrule, hcheck⟩ := exists_rule hrule hr
  unfold Grammar.isTokenTreeRule at hcheck
  split at hcheck
  · next a b c =>
    obtain ⟨hboth, hc⟩ := Bool.and_eq_true_iff.mp hcheck
    obtain ⟨ha, hb⟩ := Bool.and_eq_true_iff.mp hboth
    have hbody : Parses m f (.term (.choice [
        .seq [.token .lParen, .star (.ref a), .token .rParen],
        .seq [.token .lBracket, .star (.ref b), .token .rBracket],
        .seq [.token .lBrace, .star (.ref c), .token .rBrace]])) ⟨i, 0⟩
        (if m.kindAt ⟨j, 0⟩ = closing then
          some (.token i opening none :: (ns ++ [.token j closing none]), ⟨j + 1, 0⟩)
        else none) := by
      have hother : ∀ {kind : Kind} {ts : List Term}, opening ≠ kind →
          Parses m f (.term (.seq (.token kind :: ts))) ⟨i, 0⟩ none :=
        fun hne => .seq_no_token (hopen ▸ hne)
      rcases closedBy?_cases hpair with ⟨rfl, rfl⟩ | ⟨rfl, rfl⟩ | ⟨rfl, rfl⟩
      · exact .choice_only (parses_between hopen (hinside a ha))
          (.choice_next (hother (by decide)) (.choice_next (hother (by decide)) .choice_nil))
      · exact .choice_next (hother (by decide)) (.choice_only (parses_between hopen (hinside b hb))
          (.choice_next (hother (by decide)) .choice_nil))
      · exact .choice_next (hother (by decide)) (.choice_next (hother (by decide))
          (.choice_only (parses_between hopen (hinside c hc)) .choice_nil))
    have hclosed := Parses.ref_rule hid hrule hbody
    split
    · next hclose => rwa [if_pos hclose] at hclosed
    · next hclose => rwa [if_neg hclose] at hclosed
  · cases hcheck

/-- Without a bracket there is no token tree. -/
theorem parses_no_tokenTree (hg : m.grammar.hasTokenTrees = true)
    (hr : m.grammar.refersTo r "token_tree" = true)
    (hopen : (m.kindAt ⟨i, 0⟩).isOpening = false) :
    Parses m f (.term (.ref r)) ⟨i, 0⟩ none := by
  obtain ⟨hrule, -⟩ := Bool.and_eq_true_iff.mp hg
  obtain ⟨id, rule, hid, hrule, hcheck⟩ := exists_rule hrule hr
  unfold Grammar.isTokenTreeRule at hcheck
  split at hcheck
  · have hother : ∀ {kind : Kind} {ts : List Term}, kind.isOpening = true →
        Parses m f (.term (.seq (.token kind :: ts))) ⟨i, 0⟩ none := by
      refine fun hkind => .seq_no_token ?_
      rintro rfl
      rw [hkind] at hopen
      cases hopen
    exact Parses.ref_rule (a := none) hid hrule (.choice_next (hother rfl)
      (.choice_next (hother rfl) (.choice_next (hother rfl) .choice_nil)))
  · cases hcheck

/-- Inside a group is a token tree, or else a token that is no bracket. -/
theorem parses_inside {a : Answer} (hg : m.grammar.hasTokenTrees = true)
    (hr : m.grammar.refersTo r "tt" = true)
    (h : ∀ r, m.grammar.refersTo r "token_tree" = true → Parses m f (.term (.ref r)) ⟨i, 0⟩ a) :
    Parses m f (.term (.ref r)) ⟨i, 0⟩ (a.or (m.read? ⟨i, 0⟩ .any)) := by
  obtain ⟨-, hrule⟩ := Bool.and_eq_true_iff.mp hg
  obtain ⟨id, rule, hid, hrule, hcheck⟩ := exists_rule hrule hr
  unfold Grammar.isInsideRule at hcheck
  split at hcheck
  · next r' =>
    have hbody : Parses m f (.term (.choice [.ref r', .any])) ⟨i, 0⟩
        (a.or (m.read? ⟨i, 0⟩ .any)) := by
      cases a with
      | some found => exact .choice_here (h r' hcheck)
      | none => exact .choice_next (h r' hcheck) (.choice_only (.terminal rfl) .choice_nil)
    have hclosed := Parses.ref_rule hid hrule hbody
    rwa [show Rule.close _ = fun ns => ns from rfl, Answer.mapTrees_id] at hclosed
  · cases hcheck

/-! ## What stands at a token -/

/-- A group of `n` tokens begins at token `i`.  Behind it, what was open before is open. -/
structure HasGroup (m : Machine) (f : Flags) (i n : Nat) (tree : Match) : Prop where
  parses : ∀ r, m.grammar.refersTo r "token_tree" = true →
    Parses m f (.term (.ref r)) ⟨i, 0⟩ (some ([tree], ⟨i + n, 0⟩))
  pos : 0 < n
  isGroup : tree.IsGroup
  leaves : tree.leaves = m.wholeTokens i n
  size : groupSize? (m.kindsFrom i) = some n
  resume : ∀ opened, opened ≠ [] → sizeToClose? opened (m.kindsFrom i) =
    (sizeToClose? opened (m.kindsFrom (i + n))).map (· + n)

/-- No group begins at token `i`.  If there is a bracket, what is open is never closed. -/
structure LacksGroup (m : Machine) (f : Flags) (i : Nat) : Prop where
  parses : ∀ r, m.grammar.refersTo r "token_tree" = true →
    Parses m f (.term (.ref r)) ⟨i, 0⟩ none
  size : groupSize? (m.kindsFrom i) = none
  stuck : (m.kindAt ⟨i, 0⟩).isOpening = true → ∀ opened, sizeToClose? opened (m.kindsFrom i) = none

/-- `n` tokens from token `i` on are what stands inside a group, and nothing more can follow. -/
structure HasInside (m : Machine) (f : Flags) (i n : Nat) (ns : List Match) : Prop where
  parses : ∀ r, m.grammar.refersTo r "tt" = true →
    Parses m f (.term (.star (.ref r))) ⟨i, 0⟩ (some (ns, ⟨i + n, 0⟩))
  areInside : Match.AreInside ns
  leaves : Match.leavesAll ns = m.wholeTokens i n
  resume : ∀ opened, opened ≠ [] → sizeToClose? opened (m.kindsFrom i) =
    (sizeToClose? opened (m.kindsFrom (i + n))).map (· + n)
  stuck : (m.kindAt ⟨i + n, 0⟩).isClosing = false →
    ∀ opened, sizeToClose? opened (m.kindsFrom (i + n)) = none

theorem LacksGroup.of_not_isOpening (hg : m.grammar.hasTokenTrees = true)
    (hopen : (m.kindAt ⟨i, 0⟩).isOpening = false) : m.LacksGroup f i where
  parses r hr := parses_no_tokenTree hg hr hopen
  size := by
    cases hkinds : m.kindsFrom i with
    | nil => rfl
    | cons kind kinds =>
      rw [(kindsFrom_cons hkinds).1] at hopen
      simp [groupSize?, hopen]
  stuck h := by
    rw [hopen] at h
    cases h

theorem kindsFrom_of_isOpening (h : (m.kindAt ⟨i, 0⟩).isOpening = true) :
    m.kindsFrom i = m.kindAt ⟨i, 0⟩ :: m.kindsFrom (i + 1) := by
  refine kindsFrom_of_ne_eof fun heof => ?_
  rw [heof] at h
  cases h

theorem kindsFrom_of_isClosing (h : (m.kindAt ⟨i, 0⟩).isClosing = true) :
    m.kindsFrom i = m.kindAt ⟨i, 0⟩ :: m.kindsFrom (i + 1) := by
  refine kindsFrom_of_ne_eof fun heof => ?_
  rw [heof] at h
  cases h

/-- **At a bracket whose inside ends with the one that closes it, a group begins.** -/
theorem hasGroup_of_inside (hg : m.grammar.hasTokenTrees = true)
    (hpair : (m.kindAt ⟨i, 0⟩).closedBy? = some closing) (h : m.HasInside f (i + 1) n ns)
    (hclose : m.kindAt ⟨i + 1 + n, 0⟩ = closing) : ∃ tree, m.HasGroup f i (n + 2) tree := by
  have hbrackets := isOpening_of_closedBy? hpair
  have hkinds := kindsFrom_of_isOpening hbrackets.1
  have hbehind : m.kindsFrom (i + 1 + n) = closing :: m.kindsFrom (i + (n + 2)) := by
    rw [kindsFrom_of_isClosing (hclose ▸ hbrackets.2), hclose]
    congr 2
    omega
  generalize hopening : m.kindAt ⟨i, 0⟩ = opening at hbrackets hpair hkinds
  refine ⟨.node .tokenTree (.token i opening none :: (ns ++ [.token (i + 1 + n) closing none])),
    fun r hr => ?_, by omega, .node hpair h.areInside, ?_, ?_, fun opened hne => ?_⟩
  · have hread := parses_tokenTree hg hr hpair hopening h.parses
    rw [if_pos hclose] at hread
    rwa [show i + (n + 2) = i + 1 + n + 1 by omega]
  · rw [show n + 2 = 1 + n + 1 by omega, wholeTokens_add, wholeTokens_add,
      wholeTokens_one hopening, show i + (1 + n) = i + 1 + n by omega, wholeTokens_one hclose,
      ← h.leaves]
    simp [Match.leaves, Match.leavesAll]
  · rw [hkinds, groupSize?, if_pos hbrackets.1, h.resume _ (List.cons_ne_nil _ _), hbehind,
      sizeToClose?_closing hbrackets.2, if_pos hpair, if_pos rfl]
    simp only [Option.map_some, Option.some.injEq]
    omega
  · rw [hkinds, sizeToClose?_opening hbrackets.1, h.resume _ (List.cons_ne_nil _ _), hbehind,
      sizeToClose?_closing hbrackets.2, if_pos hpair, if_neg hne]
    simp only [Option.map_map]
    congr 1
    funext k
    simp only [Function.comp_apply]
    omega

/-- **At a bracket whose inside ends in another way, no group begins**, and nothing that is open
is closed any more. -/
theorem lacksGroup_of_inside (hg : m.grammar.hasTokenTrees = true)
    (hpair : (m.kindAt ⟨i, 0⟩).closedBy? = some closing) (h : m.HasInside f (i + 1) n ns)
    (hclose : m.kindAt ⟨i + 1 + n, 0⟩ ≠ closing) : m.LacksGroup f i := by
  have hopen := (isOpening_of_closedBy? hpair).1
  have hkinds := kindsFrom_of_isOpening hopen
  have hnever : ∀ opened,
      sizeToClose? (m.kindAt ⟨i, 0⟩ :: opened) (m.kindsFrom (i + 1)) = none := by
    intro opened
    rw [h.resume _ (List.cons_ne_nil _ _)]
    cases hclosing : (m.kindAt ⟨i + 1 + n, 0⟩).isClosing with
    | false => rw [h.stuck hclosing, Option.map_none]
    | true =>
      have hcrossed : (m.kindAt ⟨i, 0⟩).closedBy? ≠ some (m.kindAt ⟨i + 1 + n, 0⟩) := by
        rw [hpair]
        rintro ⟨⟩
        exact hclose rfl
      rw [kindsFrom_of_isClosing hclosing, sizeToClose?_closing hclosing, if_neg hcrossed,
        Option.map_none]
  refine ⟨fun r hr => ?_, ?_, fun _ opened => ?_⟩
  · have hread := parses_tokenTree hg hr hpair rfl h.parses
    rwa [if_neg hclose] at hread
  · rw [hkinds, groupSize?, if_pos hopen, hnever, Option.map_none]
  · rw [hkinds, sizeToClose?_opening hopen, hnever, Option.map_none]

/-! ## What stands inside -/

/-- Nothing that may stand inside a group is here. -/
theorem HasInside.nil (hg : m.grammar.hasTokenTrees = true) (h : m.LacksGroup f i)
    (hkind : (m.kindAt ⟨i, 0⟩).isOpening = true ∨ (m.kindAt ⟨i, 0⟩).isClosing = true ∨
      m.kindAt ⟨i, 0⟩ = .eof) : m.HasInside f i 0 [] where
  parses r hr := by
    have hany : m.read? ⟨i, 0⟩ .any = none := by
      rcases hkind with hkind | hkind | hkind <;> simp [read?, hkind]
    have hone := parses_inside hg hr h.parses
    rw [hany] at hone
    exact .star_fail hone
  areInside := .nil
  leaves := rfl
  resume opened _ := by simp
  stuck hclose opened := by
    rw [Nat.add_zero] at hclose ⊢
    rcases hkind with hkind | hkind | hkind
    · exact h.stuck hkind opened
    · rw [hkind] at hclose
      cases hclose
    · exact sizeToClose?_eof hkind opened

/-- A token that is no bracket, before what else stands inside. -/
theorem HasInside.token (hg : m.grammar.hasTokenTrees = true)
    (hopen : (m.kindAt ⟨i, 0⟩).isOpening = false) (hclose : (m.kindAt ⟨i, 0⟩).isClosing = false)
    (heof : m.kindAt ⟨i, 0⟩ ≠ .eof) (h : m.HasInside f (i + 1) n ns) :
    m.HasInside f i (1 + n) (.token i (m.kindAt ⟨i, 0⟩) none :: ns) where
  parses r hr := by
    have hany : m.read? ⟨i, 0⟩ .any =
        some ([.token i (m.kindAt ⟨i, 0⟩) none], ⟨i + 1, 0⟩) := by
      simp [read?, hopen, hclose, heof, leafAt_whole]
    have hone := parses_inside hg hr (LacksGroup.of_not_isOpening (f := f) hg hopen).parses
    rw [hany] at hone
    rw [← Nat.add_assoc]
    exact .star_more hone (by simp) (h.parses r hr)
  areInside := .token hopen hclose h.areInside
  leaves := by
    rw [wholeTokens_add, wholeTokens_one rfl, ← h.leaves]
    rfl
  resume opened hne := by
    rw [kindsFrom_of_ne_eof heof, sizeToClose?_plain hopen hclose heof hne, h.resume opened hne,
      Option.map_map, ← Nat.add_assoc]
    congr 1
    funext k
    simp only [Function.comp_apply]
    omega
  stuck := by
    rw [← Nat.add_assoc]
    exact h.stuck

/-- A group, before what else stands inside. -/
theorem HasInside.group {k : Nat} {tree : Match} (hg : m.grammar.hasTokenTrees = true)
    (hgroup : m.HasGroup f i k tree) (h : m.HasInside f (i + k) n ns) :
    m.HasInside f i (k + n) (tree :: ns) where
  parses r hr := by
    have hone := parses_inside hg hr hgroup.parses
    have hpos := hgroup.pos
    rw [← Nat.add_assoc]
    refine .star_more hone ?_ (h.parses r hr)
    simp only [ne_eq, Pos.mk.injEq, and_true]
    omega
  areInside := .group hgroup.isGroup h.areInside
  leaves := by rw [wholeTokens_add, ← hgroup.leaves, ← h.leaves, Match.leavesAll]
  resume opened hne := by
    rw [hgroup.resume opened hne, h.resume opened hne, Option.map_map, ← Nat.add_assoc]
    congr 1
    funext j
    simp only [Function.comp_apply]
    omega
  stuck := by
    rw [← Nat.add_assoc]
    exact h.stuck

/-- A group begins at every token, or none does, if what is inside is known behind it. -/
theorem hasGroup_or_lacksGroup (hg : m.grammar.hasTokenTrees = true)
    (h : (m.kindAt ⟨i, 0⟩).isOpening = true → ∃ n ns, m.HasInside f (i + 1) n ns) :
    (∃ n tree, m.HasGroup f i n tree) ∨ m.LacksGroup f i := by
  cases hopen : (m.kindAt ⟨i, 0⟩).isOpening with
  | false => exact .inr (.of_not_isOpening hg hopen)
  | true =>
    obtain ⟨n, ns, hinside⟩ := h hopen
    obtain ⟨closing, hpair⟩ := exists_closedBy? hopen
    by_cases hclose : m.kindAt ⟨i + 1 + n, 0⟩ = closing
    · exact .inl ⟨n + 2, hasGroup_of_inside hg hpair hinside hclose⟩
    · exact .inr (lacksGroup_of_inside hg hpair hinside hclose)

/-- **Something stands inside from every token on**, if only nothing.  By induction on the tokens
that are left. -/
theorem exists_inside (hg : m.grammar.hasTokenTrees = true) (f : Flags) (i : Nat) :
    ∃ n ns, m.HasInside f i n ns := by
  induction hleft : m.tokens.size - i using Nat.strong_induction_on generalizing i with
  | h left ih =>
    have hnext : m.kindAt ⟨i, 0⟩ ≠ .eof → ∀ k, 0 < k → ∃ n ns, m.HasInside f (i + k) n ns := by
      intro heof k hk
      have hlt : i < m.tokens.size := index_lt_of_kindAt_ne heof
      exact ih (m.tokens.size - (i + k)) (by omega) (i + k) rfl
    by_cases heof : m.kindAt ⟨i, 0⟩ = .eof
    · have hopen : (m.kindAt ⟨i, 0⟩).isOpening = false := by rw [heof]; rfl
      exact ⟨0, [], .nil hg (.of_not_isOpening hg hopen) (.inr (.inr heof))⟩
    rcases hasGroup_or_lacksGroup hg fun _ => hnext heof 1 Nat.one_pos with
      ⟨k, tree, hgroup⟩ | hlacks
    · obtain ⟨n, ns, hinside⟩ := hnext heof k hgroup.pos
      exact ⟨_, _, hinside.group hg hgroup⟩
    · cases hopen : (m.kindAt ⟨i, 0⟩).isOpening with
      | true => exact ⟨0, [], .nil hg hlacks (.inl hopen)⟩
      | false =>
        cases hclose : (m.kindAt ⟨i, 0⟩).isClosing with
        | true => exact ⟨0, [], .nil hg hlacks (.inr (.inl hclose))⟩
        | false =>
          obtain ⟨n, ns, hinside⟩ := hnext heof 1 Nat.one_pos
          exact ⟨_, _, hinside.token hg hopen hclose heof⟩

/-! ## Evaluation -/

/-- **A token tree is a balanced group.**  Without limits, and with fuel enough, the rule matches at
a token exactly if a group begins there.  It stops behind the group, and adds one tree: a node for
the group, and in it one for each group inside, over the tokens of the group in order. -/
theorem eval_tokenTree (hg : Language.grammar = .ok m.grammar) (hlim : m.IsUnlimited) {s : State}
    (hlive : s.halted = false) (htrue : m.MemoTrue s.memo)
    (hquiet : ∀ key, s.memo.get? key ≠ some .inProgress) (i : Nat) :
    ∃ enough, ∀ fuel, enough ≤ fuel →
      (∀ n, groupSize? (m.kindsFrom i) = some n → ∃ tree s',
        m.eval fuel (.rule "token_tree") ⟨i, 0⟩ s = .matched ⟨i + n, 0⟩ s' ∧
        s'.out.toList = s.out.toList ++ [tree] ∧ tree.IsGroup ∧
        tree.leaves = m.wholeTokens i n) ∧
      (groupSize? (m.kindsFrom i) = none → ∃ s',
        m.eval fuel (.rule "token_tree") ⟨i, 0⟩ s = .failed s' ∧ s'.out = s.out) := by
  have htrees := hasTokenTrees_grammar hg
  have hrefers : m.grammar.refersTo (.named "token_tree") "token_tree" = true := by
    simp [Grammar.refersTo, Grammar.resolve?]
  have hpos : ¬ m.IsLost ⟨i, 0⟩ := by
    rintro ⟨hsplit, -⟩
    cases hsplit
  have hs : m.InOrder s.flags s.suppress s := ⟨rfl, rfl, hlive, htrue⟩
  rcases hasGroup_or_lacksGroup (f := s.flags) htrees fun _ => exists_inside htrees s.flags (i + 1)
    with ⟨n, tree, hgroup⟩ | hlacks
  · obtain ⟨enough, heval⟩ := eval_of_parses hlim (hgroup.parses _ hrefers) hs hpos hquiet
    refine ⟨enough, fun fuel hfuel => ⟨fun n' hn' => ?_, fun hnone => ?_⟩⟩
    · obtain rfl := Option.some.inj (hn'.symm.trans hgroup.size)
      obtain ⟨s', hs', hext⟩ := (heval fuel hfuel).1 _ _ rfl
      exact ⟨tree, s', hs', hext.out, hgroup.isGroup, hgroup.leaves⟩
    · rw [hgroup.size] at hnone
      cases hnone
  · obtain ⟨enough, heval⟩ := eval_of_parses hlim (hlacks.parses _ hrefers) hs hpos hquiet
    refine ⟨enough, fun fuel hfuel => ⟨fun n hn => ?_, fun _ => ?_⟩⟩
    · rw [hlacks.size] at hn
      cases hn
    · obtain ⟨s', hs', hext⟩ := (heval fuel hfuel).2 rfl
      exact ⟨s', hs', Array.ext' (by simpa using hext.out)⟩

/-- A group inside a parenthesis that a brace would close. -/
def crossed (g : Grammar) : Machine where
  grammar := g
  tokens := #[⟨.lParen, "("⟩, ⟨.lBracket, "["⟩, ⟨.ident, "a"⟩, ⟨.rBracket, "]"⟩, ⟨.rBrace, "\x7d"⟩,
    ⟨.eof, ""⟩]

/-- The conditions can be met, and both cases arise. -/
theorem eval_tokenTree_crossed : ∃ g, Language.grammar = .ok g ∧ ∃ enough, ∀ fuel, enough ≤ fuel →
    (∃ s', (crossed g).eval fuel (.rule "token_tree") ⟨0, 0⟩ {} = .failed s') ∧
    ∃ tree s', (crossed g).eval fuel (.rule "token_tree") ⟨1, 0⟩ {} = .matched ⟨4, 0⟩ s' ∧
      s'.out.toList = [tree] ∧ tree.IsGroup ∧ tree.leaves =
        [.token 1 .lBracket none, .token 2 .ident none, .token 3 .rBracket none] := by
  obtain ⟨g, hg⟩ := exists_grammar
  have hquiet : ∀ key, ({} : State).memo.get? key ≠ some .inProgress := fun key h => by simp at h
  obtain ⟨enough, hopen⟩ := eval_tokenTree (m := crossed g) hg ⟨rfl, rfl⟩ (s := {}) rfl
    (memoTrue_empty _) hquiet 0
  obtain ⟨enough', hgroup⟩ := eval_tokenTree (m := crossed g) hg ⟨rfl, rfl⟩ (s := {}) rfl
    (memoTrue_empty _) hquiet 1
  refine ⟨g, hg, max enough enough', fun fuel hfuel => ⟨?_, ?_⟩⟩
  · obtain ⟨s', hs', -⟩ := (hopen fuel (by omega)).2 rfl
    exact ⟨s', hs'⟩
  · exact (hgroup fuel (by omega)).1 3 rfl

end Machine
end Peg
end Packrat
