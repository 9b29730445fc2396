/-
# Matches cover what they read

The leaves of what a term matches stand side by side and cover everything from the place
where the term began up to the place where it stopped (`Machine.Tiles`).  A leaf is all that
is at a place, under its own kind, or a piece that was cut off, spelled as its kind is.  The
end of the text is covered by nothing.

Nodes do not matter here, so this is a fact about the leaves of trees alone
(`Match.leavesAll`); lookaheads give no trees, and what failed has left none.  Whatever is true of
what terminals read, and stays true where trees go on or are put under nodes, is true of all that
terms match (`Parses.follows`); of leaves alone, nothing has to be said of nodes (`Parses.spans`).
-/

import Packrat.Proofs.Peg.Part
import Packrat.Proofs.Peg.Place
import Packrat.Proofs.Peg.Plain

namespace Packrat
namespace Peg

namespace Match

mutual

/-- The leaves of a tree, in order. -/
def leaves : Match → List Match
  | token index kind part => [token index kind part]
  | node _ children => leavesAll children

/-- The leaves of some trees, in order. -/
def leavesAll : List Match → List Match
  | [] => []
  | t :: ts => t.leaves ++ leavesAll ts

end

@[simp] theorem leavesAll_nil : leavesAll [] = [] := rfl

@[simp] theorem leavesAll_append (ns ms : List Match) :
    leavesAll (ns ++ ms) = leavesAll ns ++ leavesAll ms := by
  induction ns with
  | nil => rfl
  | cons n ns ih => rw [List.cons_append, leavesAll, leavesAll, ih, List.append_assoc]

@[simp] theorem leavesAll_token (index : Nat) (kind : Kind) (part : Option (UInt8 × UInt8)) :
    leavesAll [token index kind part] = [token index kind part] := rfl

@[simp] theorem leavesAll_node (kind : Kind) (ns : List Match) :
    leavesAll [node kind ns] = leavesAll ns := by
  rw [leavesAll, leavesAll, leaves, List.append_nil]

/-- The match stands in another one, or is the other one. -/
inductive Within (m : Match) : Match → Prop where
  | self : Within m m
  | inner {kind children c} : c ∈ children → Within m c → Within m (.node kind children)

end Match

/-- A rule's node does not change the leaves. -/
@[simp] theorem Rule.leavesAll_close (rule : Rule) (ns : List Match) :
    Match.leavesAll (rule.close ns) = Match.leavesAll ns := by
  unfold close
  split
  · rw [Match.leavesAll_node]
  · rfl

namespace Machine

/-- Leaves cover what stands from one place up to another.  Pieces are of kinds that may be
`cuts`. -/
inductive Tiles (m : Machine) (cuts : Kind → Prop) : Pos → List Match → Pos → Prop where
  | nil {pos} : Tiles m cuts pos [] pos
  | leaf {pos ls stop} : m.kindAt pos ≠ .eof →
    Tiles m cuts (m.leafAt pos (m.kindAt pos)).2 ls stop →
    Tiles m cuts pos ((m.leafAt pos (m.kindAt pos)).1 ++ ls) stop
  | piece {pos kind spelling ls stop} : cuts kind → kind.spelling? = some spelling →
    m.BeginsWith pos spelling → Tiles m cuts (pieceAt pos kind spelling).2 ls stop →
    Tiles m cuts pos ((pieceAt pos kind spelling).1 ++ ls) stop

variable {m : Machine} {cuts : Kind → Prop} {pos mid stop : Pos} {ls ls' ns : List Match}

theorem Tiles.append (h : m.Tiles cuts pos ls mid) (h' : m.Tiles cuts mid ls' stop) :
    m.Tiles cuts pos (ls ++ ls') stop := by
  induction h with
  | nil => exact h'
  | leaf hkind _ ih =>
    rw [List.append_assoc]
    exact .leaf hkind (ih h')
  | piece hcut hspell hbegins _ ih =>
    rw [List.append_assoc]
    exact .piece hcut hspell hbegins (ih h')

/-- What is asked of a part of a term: it reads no end of the text as a token, and what it
cuts off is of a kind that may be. -/
structure Cuts (m : Machine) (cuts : Kind → Prop) (t : Term) : Prop where
  steady : m.grammar.isSteady t = true
  cut : ∀ kind, t = .split kind → cuts kind

theorem leafAt_tiles (hkind : m.kindAt pos ≠ .eof) :
    m.Tiles cuts pos (Match.leavesAll (m.leafAt pos (m.kindAt pos)).1)
      (m.leafAt pos (m.kindAt pos)).2 := by
  have h : m.Tiles cuts pos ((m.leafAt pos (m.kindAt pos)).1 ++ []) _ := .leaf hkind .nil
  rwa [List.append_nil] at h

/-- A terminal covers what it reads. -/
theorem read?_tiles {t : Term} (ht : m.Cuts cuts t) (h : m.read? pos t = some (ns, stop)) :
    m.Tiles cuts pos (Match.leavesAll ns) stop := by
  have hsteady := ht.steady
  cases t with
  | token kind =>
    simp only [read?] at h
    split_ifs at h with hkind
    cases h
    subst hkind
    exact leafAt_tiles (by simpa [Grammar.isSteady] using hsteady)
  | split kind =>
    simp only [read?] at h
    split_ifs at h with hkind
    · cases h
      subst hkind
      exact leafAt_tiles (by simpa [Grammar.isSteady] using hsteady)
    · obtain ⟨spelling, hspell, hcut⟩ := Option.bind_eq_some_iff.mp h
      split_ifs at hcut with hbegins
      cases hcut
      exact .piece (ht.cut kind rfl) hspell hbegins .nil
  | word text =>
    simp only [read?] at h
    split_ifs at h with hword
    cases h
    rw [← hword.1]
    exact leafAt_tiles (by simp [hword.1])
  | any =>
    simp only [read?] at h
    split_ifs at h with hkind
    cases h
    exact leafAt_tiles (by simp_all)
  | ended =>
    simp only [read?] at h
    split_ifs at h
    cases h
    exact .nil
  | _ => cases h

/-- What an answer to a term covers. -/
def Covers (m : Machine) (cuts : Kind → Prop) (pos : Pos) (a : Answer) : Prop :=
  ∀ ns stop, a = some (ns, stop) → m.Tiles cuts pos (Match.leavesAll ns) stop

/-- What an answer to a goal covers.  The rounds of a fold go on from what the trees gathered
so far cover. -/
def GoalCovers (m : Machine) (cuts : Kind → Prop) (pos : Pos) (a : Answer) : Goal → Prop
  | .term t => t.Every (m.Cuts cuts) → m.Covers cuts pos a
  | .rounds tails _ done => (∀ tail ∈ tails, tail.2.Every (m.Cuts cuts)) →
      ∀ start, m.Covers cuts start (some (done, pos)) → m.Covers cuts start a

/-- Every part of every rule may be asked to cover what it reads. -/
def RulesCut (m : Machine) (cuts : Kind → Prop) : Prop :=
  ∀ (id : Nat) (rule : Rule), m.grammar.rules[id]? = some rule → rule.body.Every (m.Cuts cuts)

end Machine

/-! ## What holds of all that is matched -/

/-- The term reads nothing and makes no node itself. -/
def Term.isFree : Term → Bool
  | .node .. | .fold .. => false
  | t => !t.isTerminal

/-- A relation between a place, trees that were matched from there on, and the place behind them.
It holds of no trees, of trees that go on where others stopped, of what terminals read, and of what
is put under a node; of terminals, nodes and folds only those count that are as `P` says. -/
structure IsRoute (m : Machine) (P : Term → Prop) (R : Pos → List Match → Pos → Prop) : Prop where
  nil (pos : Pos) : R pos [] pos
  append {pos : Pos} {ns : List Match} {mid : Pos} {ms : List Match} {stop : Pos} :
    R pos ns mid → R mid ms stop → R pos (ns ++ ms) stop
  read {t : Term} {pos : Pos} {ns : List Match} {stop : Pos} :
    P t → m.read? pos t = some (ns, stop) → R pos ns stop
  node {f : Flags} {kind : Kind} {t : Term} {pos : Pos} {ns : List Match} {stop : Pos} :
    P (.node kind t) → Parses m f (.term t) pos (some (ns, stop)) → R pos ns stop →
    R pos [.node kind ns] stop
  close {f : Flags} {id : Nat} {rule : Rule} {pos : Pos} {ns : List Match} {stop : Pos} :
    m.grammar.rules[id]? = some rule → Parses m f (.term rule.body) pos (some (ns, stop)) →
    R pos ns stop → R pos (rule.close ns) stop
  /-- The node of a tail is put around all that was gathered before. -/
  round {kind : Kind} {t : Term} {start pos : Pos} {ns ms : List Match} {stop : Pos} :
    P (.node kind t) → R start ns pos → R pos [.node kind ms] stop →
    R start [.node kind (ns ++ ms)] stop
  tail {operand : Term} {tails : List (Kind × Term)} {max : Option Nat} :
    P (.fold operand tails max) → ∀ tail ∈ tails, P (.node tail.1 tail.2)
  free {t : Term} : t.isFree = true → P t

/-- The relation holds of what has been matched. -/
def Answer.Follows (R : Pos → List Match → Pos → Prop) (pos : Pos) (a : Answer) : Prop :=
  ∀ ns stop, a = some (ns, stop) → R pos ns stop

/-- The relation holds of an answer to a goal.  The rounds of a fold go on from where it holds of
the trees gathered so far. -/
def Goal.Follows (R : Pos → List Match → Pos → Prop) (P : Term → Prop) (pos : Pos) (a : Answer) :
    Goal → Prop
  | .term t => t.Every P → a.Follows R pos
  | .rounds tails _ done => (Term.ofTails tails).Every P →
      ∀ start, Answer.Follows R start (some (done, pos)) → a.Follows R start

section

variable {m : Machine} {P : Term → Prop} {R : Pos → List Match → Pos → Prop} {pos mid : Pos}
  {ns : List Match} {a : Answer} {t : Term}

theorem Answer.follows_none : Answer.Follows R pos none := by
  rintro ns stop ⟨⟩

theorem IsRoute.stay (hR : IsRoute m P R) : Answer.Follows R pos (some ([], pos)) := by
  rintro ns stop ⟨⟩
  exact hR.nil pos

/-- Trees that go on where others stopped. -/
theorem Answer.Follows.after (h : a.Follows R mid) (hR : IsRoute m P R)
    (hfirst : Answer.Follows R pos (some (ns, mid))) : (a.mapTrees (ns ++ ·)).Follows R pos := by
  intro ns' stop heq
  obtain ⟨⟨ns'', stop'⟩, rfl, hr⟩ := Option.map_eq_some_iff.mp heq
  cases hr
  exact hR.append (hfirst ns mid rfl) (h ns'' stop' rfl)

/-- What is asked of all parts of a free term is what is asked of the terms right inside it. -/
theorem IsRoute.every_of_children (hR : IsRoute m P R) (ht : t.isFree = true)
    (h : ∀ c ∈ t.children, c.Every P) : t.Every P :=
  Term.every_iff.mpr ⟨hR.free ht, h⟩

/-- The tails of a fold as alternatives. -/
theorem IsRoute.every_ofTails (hR : IsRoute m P R) {operand : Term} {tails : List (Kind × Term)}
    {max : Option Nat} (h : (Term.fold operand tails max).Every P) :
    (Term.ofTails tails).Every P := by
  refine hR.every_of_children rfl fun c hc => ?_
  obtain ⟨tail, htail, rfl⟩ := List.mem_map.mp hc
  refine Term.every_iff.mpr ⟨hR.tail h.self tail htail, fun c hc => ?_⟩
  obtain rfl := List.mem_singleton.mp hc
  exact h.child (List.mem_cons_of_mem _ (List.mem_map_of_mem htail))

end

namespace Parses

variable {m : Machine} {f : Flags} {goal : Goal} {pos : Pos} {a : Answer}

/-- **What holds of what terminals read, and stays where trees go on or are put under nodes, holds
of all that is matched.** -/
theorem follows {P : Term → Prop} {R : Pos → List Match → Pos → Prop} (hR : IsRoute m P R)
    (hrules : ∀ (id : Nat) (rule : Rule), m.grammar.rules[id]? = some rule → rule.body.Every P)
    (h : Parses m f goal pos a) : goal.Follows R P pos a := by
  induction h with
  | terminal => exact fun hevery ns stop hns => hR.read hevery.self hns
  | seq_nil => exact fun _ => hR.stay
  | seq_fail => exact fun _ => Answer.follows_none
  | seq_cons _ _ ih₁ ih₂ =>
    intro hevery
    have hfirst := ih₁ (hevery.child (by simp [Term.children]))
    have hrest := ih₂ (hR.every_of_children rfl fun c hc =>
      hevery.child (List.mem_cons_of_mem _ hc))
    exact hrest.after hR hfirst
  | choice_nil => exact fun _ => Answer.follows_none
  | choice_here _ ih => exact fun hevery => ih (hevery.child (by simp [Term.children]))
  | choice_next _ _ _ ih =>
    intro hevery
    exact ih (hR.every_of_children rfl fun c hc => hevery.child (List.mem_cons_of_mem _ hc))
  | @opt f t pos a _ ih =>
    intro hevery
    have hbody := ih (hevery.child (by simp [Term.children]))
    cases a with
    | none => exact hR.stay
    | some r => exact hbody
  | star_fail => exact fun _ => hR.stay
  | star_empty => exact fun _ => hR.stay
  | star_more _ _ _ ih₁ ih₂ =>
    intro hevery
    exact (ih₂ hevery).after hR (ih₁ (hevery.child (by simp [Term.children])))
  | plus_fail => exact fun _ => Answer.follows_none
  | plus_more _ _ ih₁ ih₂ =>
    intro hevery
    have hfirst := ih₁ (hevery.child (by simp [Term.children]))
    have hrest := ih₂ (hR.every_of_children rfl fun c hc => hevery.child hc)
    exact hrest.after hR hfirst
  | @ahead f t pos a _ _ =>
    intro _
    cases a with
    | none => exact Answer.follows_none
    | some r => exact hR.stay
  | @notAhead f t pos a _ _ =>
    intro _
    cases a with
    | none => exact hR.stay
    | some r => exact Answer.follows_none
  | ref_none => exact fun _ => Answer.follows_none
  | ref_rule _ hrule hbody ih =>
    intro _ ns stop heq
    obtain ⟨⟨ns', stop'⟩, rfl, hr⟩ := Option.map_eq_some_iff.mp heq
    cases hr
    exact hR.close hrule hbody (ih (hrules _ _ hrule) ns' stop' rfl)
  | node hbody ih =>
    intro hevery ns stop heq
    obtain ⟨⟨ns', stop'⟩, rfl, hr⟩ := Option.map_eq_some_iff.mp heq
    cases hr
    exact hR.node hevery.self hbody (ih (hevery.child (by simp [Term.children])) ns' stop' rfl)
  | scope _ ih => exact fun hevery => ih (hevery.child (by simp [Term.children]))
  | gate_open _ _ ih => exact fun hevery => ih (hevery.child (by simp [Term.children]))
  | gate_shut => exact fun _ => Answer.follows_none
  | fold_fail => exact fun _ => Answer.follows_none
  | fold_rounds _ _ ih₁ ih₂ =>
    intro hevery
    exact ih₂ (hR.every_ofTails hevery) _ (ih₁ (hevery.child (by simp [Term.children])))
  | rounds_spent => exact fun _ start h => h
  | rounds_end => exact fun _ start h => h
  | @rounds_more f tails left pos ns kind ms mid a _ htail _ ih₁ ih₂ =>
    intro htails start hdone
    refine ih₂ htails start fun ns' stop heq => ?_
    cases heq
    obtain ⟨tail, hmem, ms', heq⟩ := htail.exists_tail
    cases heq
    have hnode : (Term.node tail.1 tail.2).Every P := htails.child (List.mem_map_of_mem hmem)
    exact hR.round hnode.self (hdone ns pos rfl) (ih₁ htails _ _ rfl)

end Parses

/-! ## What holds of all leaves -/

/-- A relation between a place, leaves that were read from there on, and the place behind them: it
holds of no leaves, and of leaves that go on where others stopped. -/
structure IsSpan (R : Pos → List Match → Pos → Prop) : Prop where
  nil (pos : Pos) : R pos [] pos
  append {pos ls mid ls' stop} : R pos ls mid → R mid ls' stop → R pos (ls ++ ls') stop

/-- The relation holds of what has been matched. -/
def Answer.Spans (R : Pos → List Match → Pos → Prop) (pos : Pos) (a : Answer) : Prop :=
  ∀ ns stop, a = some (ns, stop) → R pos (Match.leavesAll ns) stop

/-- The terminals of a term are as `P` says. -/
def Term.Reads (P : Term → Prop) (t : Term) : Prop := t.Every fun u => u.isTerminal = true → P u

/-- The relation holds of an answer to a goal.  The rounds of a fold go on from where it holds of
the trees gathered so far. -/
def Goal.Spans (R : Pos → List Match → Pos → Prop) (P : Term → Prop) (pos : Pos) (a : Answer) :
    Goal → Prop
  | .term t => t.Reads P → a.Spans R pos
  | .rounds tails _ done => (∀ tail ∈ tails, tail.2.Reads P) →
      ∀ start, Answer.Spans R start (some (done, pos)) → a.Spans R start

/-- The tails of a fold as alternatives. -/
theorem Term.reads_ofTails {P : Term → Prop} {tails : List (Kind × Term)}
    (h : ∀ tail ∈ tails, tail.2.Reads P) : (Term.ofTails tails).Reads P := by
  refine Term.every_iff.mpr ⟨fun hterminal => (by cases hterminal), fun c hc => ?_⟩
  obtain ⟨tail, htail, rfl⟩ := List.mem_map.mp hc
  refine Term.every_iff.mpr ⟨fun hterminal => (by cases hterminal), fun c hc => ?_⟩
  obtain rfl := List.mem_singleton.mp hc
  exact h tail htail

/-- Nodes do not matter to what holds of leaves. -/
theorem IsSpan.isRoute {m : Machine} {R : Pos → List Match → Pos → Prop} {P : Term → Prop}
    (hR : IsSpan R) (hread : ∀ t pos ns stop, P t → m.read? pos t = some (ns, stop) →
      R pos (Match.leavesAll ns) stop) :
    IsRoute m (fun t => t.isTerminal = true → P t)
      fun pos ns stop => R pos (Match.leavesAll ns) stop where
  nil := hR.nil
  append h h' := by
    rw [Match.leavesAll_append]
    exact hR.append h h'
  read {t pos ns stop} hP h := by
    refine hread t pos ns stop (hP ?_) h
    cases t <;> first | rfl | cases h
  node _ _ h := by rwa [Match.leavesAll_node]
  close _ _ h := by rwa [Rule.leavesAll_close]
  round _ h h' := by
    rw [Match.leavesAll_node] at h' ⊢
    rw [Match.leavesAll_append]
    exact hR.append h h'
  tail _ _ _ hterminal := by cases hterminal
  free {t} hfree hterminal := by
    have hnot : t.isTerminal = false := by
      cases t <;> first | rfl | cases hfree
    rw [hnot] at hterminal
    cases hterminal

namespace Parses

variable {m : Machine} {f : Flags} {goal : Goal} {pos : Pos} {a : Answer}

/-- **What holds of the leaves of terminals holds of all leaves**, if it goes on. -/
theorem spans {R : Pos → List Match → Pos → Prop} {P : Term → Prop} (hR : IsSpan R)
    (hread : ∀ t pos ns stop, P t → m.read? pos t = some (ns, stop) →
      R pos (Match.leavesAll ns) stop)
    (hrules : ∀ (id : Nat) (rule : Rule), m.grammar.rules[id]? = some rule → rule.body.Reads P)
    (h : Parses m f goal pos a) : goal.Spans R P pos a := by
  have hfollows := h.follows (hR.isRoute hread) hrules
  cases goal with
  | term t => exact hfollows
  | rounds tails left done => exact fun htails => hfollows (Term.reads_ofTails htails)

/-- **Matches cover what they read.** -/
theorem covers {cuts : Kind → Prop} (hrules : m.RulesCut cuts) (h : Parses m f goal pos a) :
    m.GoalCovers cuts pos a goal := by
  have hreads : ∀ t : Term, t.Every (m.Cuts cuts) → t.Reads (m.Cuts cuts) :=
    fun t hevery u hu _ => hevery u hu
  have hspan : IsSpan (m.Tiles cuts) := ⟨fun _ => .nil, Machine.Tiles.append⟩
  have hspans := h.spans hspan (fun t pos ns stop => Machine.read?_tiles)
    fun id rule hrule => hreads rule.body (hrules id rule hrule)
  cases goal with
  | term t => exact fun hevery => hspans (hreads t hevery)
  | rounds tails left done =>
    exact fun htails => hspans fun tail hmem => hreads tail.2 (htails tail hmem)

end Parses
end Peg
end Packrat
