/-
# A fold is a repetition, nested to the left

Behind its operand a fold tries its tails in order, in round after round, until none of them
matches or no round is left (`Machine.Rounds`).  Each round wraps all the trees before it together
with its own (`Match.nested`), so what a fold gives is one node within another, the operand's trees
innermost.  Without the nodes it is what a sequence gives: the operand, and behind it any of the
tails, as often as it matches or at most so many times (`Term.upTo`).

| | fold | sequence |
| --- | --- | --- |
| no tail matches | ends | the repetition ends |
| a tail matches, and some rounds are left | wraps, and goes on | puts its trees behind, and goes on |
| a tail matches nothing, without a limit | goes on, for ever | the repetition ends |
| a tail reads the end of the text, without a limit | goes on, for ever | goes on, for ever |

So the two come to the same unless a tail matches nothing.  They are compared by their rounds: the
rounds of a fold are read off its derivation (`Machine.exists_rounds`), those of a repetition off
its own (`Machine.rounds_of_parses_upTo`), and either has an answer for all rounds there are.

That there is an end to the rounds is another matter.  Each tail has to come to an end wherever the
fold comes to, and without a limit it has to leave less to read (`Machine.TailsEnd`): then the fold
ends, and matches if its operand does (`Machine.exists_eval_fold`).  A tail that moves on is not
enough, since the end of the text can be read as a token any number of times
(`Machine.fold_end_runs_on`).
-/

import Packrat.Proofs.Peg.Afresh
import Packrat.Proofs.Peg.Ending
import Packrat.Proofs.Peg.Enough

namespace Packrat
namespace Peg

/-! ## Nesting -/

namespace Match

/-- What rounds make of the trees so far: each wraps them, with its own behind, in its node. -/
def nested (ns : List Match) (rounds : List (Kind × List Match)) : List Match :=
  rounds.foldl (fun ns round => [.node round.1 (ns ++ round.2)]) ns

@[simp] theorem nested_nil (ns : List Match) : nested ns [] = ns := rfl

@[simp] theorem nested_cons (ns : List Match) (round : Kind × List Match)
    (rounds : List (Kind × List Match)) :
    nested ns (round :: rounds) = nested [.node round.1 (ns ++ round.2)] rounds := rfl

/-- Each round adds a level: a node of its kind, with the level below and what the round matched as
its children. -/
theorem nested_take_succ (ns : List Match) (rounds : List (Kind × List Match)) (i : Nat)
    (hi : i < rounds.length) : nested ns (rounds.take (i + 1)) =
      [.node rounds[i].1 (nested ns (rounds.take i) ++ rounds[i].2)] := by
  rw [List.take_succ_eq_append_getElem hi, nested, List.foldl_append]
  rfl

/-- Nesting keeps the leaves, and their order. -/
theorem leavesAll_nested (rounds : List (Kind × List Match)) : ∀ ns : List Match,
    leavesAll (nested ns rounds) = leavesAll (ns ++ rounds.flatMap (·.2)) := by
  induction rounds with
  | nil => simp
  | cons round rounds ih =>
    intro ns
    rw [nested_cons, ih, List.flatMap_cons, leavesAll_append, leavesAll_node]
    simp only [leavesAll_append, List.append_assoc]

end Match

/-! ## The repetition of a term -/

namespace Term

/-- A term again and again, at most so many times. -/
def atMost (t : Term) : Nat → Term
  | 0 => .empty
  | n + 1 => .opt (.seq [t, t.atMost n])

/-- A term again and again: as often as it matches, or at most so many times. -/
def upTo (t : Term) : Option Nat → Term
  | none => .star t
  | some n => t.atMost n

/-- A fold without its nodes: the operand, and behind it any of the tails again and again. -/
def unnested (operand : Term) (tails : List (Kind × Term)) (max : Option Nat) : Term :=
  .seq [operand, .upTo (.choice (tails.map (·.2))) max]

end Term

/-! ## Rounds -/

namespace Machine

variable {m : Machine} {f : Flags} {tails : List (Kind × Term)} {kind : Kind} {pos mid stop : Pos}
  {ns ms : List Match} {left max : Option Nat} {rounds : List (Kind × List Match)} {a : Answer}

/-- The first of some tails that matches at a place, told by its kind and what it matches. -/
def FirstTail (m : Machine) (f : Flags) (pos : Pos) (kind : Kind) (r : List Match × Pos) :
    List (Kind × Term) → Prop
  | [] => False
  | (kind', t) :: tails => kind' = kind ∧ Parses m f (.term t) pos (some r) ∨
      Parses m f (.term t) pos none ∧ FirstTail m f pos kind r tails

/-- From one place to another tails match, one behind the other: each is the first that matches at
its place.  They end when no round is left, or where no tail matches. -/
inductive Rounds (m : Machine) (f : Flags) (tails : List (Kind × Term)) :
    Option Nat → Pos → List (Kind × List Match) → Pos → Prop where
  | spent {pos : Pos} : Rounds m f tails (some 0) pos [] pos
  | ended {left : Option Nat} {pos : Pos} : left ≠ some 0 →
      (∀ tail ∈ tails, Parses m f (.term tail.2) pos none) → Rounds m f tails left pos [] pos
  | more {left : Option Nat} {pos mid stop : Pos} {kind : Kind} {ms : List Match}
      {rounds : List (Kind × List Match)} : left ≠ some 0 →
      FirstTail m f pos kind (ms, mid) tails →
      Rounds m f tails (left.map (· - 1)) mid rounds stop →
      Rounds m f tails left pos ((kind, ms) :: rounds) stop

/-- The first tail that matches is one of them. -/
theorem FirstTail.exists_mem {r : List Match × Pos} (h : m.FirstTail f pos kind r tails) :
    ∃ tail ∈ tails, Parses m f (.term tail.2) pos (some r) := by
  induction tails with
  | nil => cases h
  | cons tail tails ih =>
    obtain ⟨kind', t⟩ := tail
    rcases h with ⟨-, ht⟩ | ⟨-, hrest⟩
    · exact ⟨(kind', t), by simp, ht⟩
    · obtain ⟨tail, htail, h⟩ := ih hrest
      exact ⟨tail, by simp [htail], h⟩

/-- Tails as alternatives, in whatever form they are given: they fail if each fails, and otherwise
answer as the first that matches. -/
theorem parses_choice_map {as : Kind × Term → Term} (close : Kind → List Match → List Match)
    (has : ∀ tail a, Parses m f (.term (as tail)) pos a ↔
      ∃ b, Parses m f (.term tail.2) pos b ∧ a = b.mapTrees (close tail.1)) :
    ∀ {a}, Parses m f (.term (.choice (tails.map as))) pos a ↔
      (a = none ∧ ∀ tail ∈ tails, Parses m f (.term tail.2) pos none) ∨
      ∃ kind ms mid, a = some (close kind ms, mid) ∧ m.FirstTail f pos kind (ms, mid) tails := by
  induction tails with
  | nil =>
    intro a
    constructor
    · intro h
      cases h with
      | terminal ht => cases ht
      | choice_nil => exact .inl ⟨rfl, by simp⟩
    · rintro (⟨rfl, -⟩ | ⟨kind, ms, mid, -, hfirst⟩)
      · exact .choice_nil
      · cases hfirst
  | cons tail tails ih =>
    obtain ⟨kind', t⟩ := tail
    intro a
    constructor
    · intro h
      cases h with
      | terminal ht => cases ht
      | choice_here ht =>
        obtain ⟨b, hb, heq⟩ := (has (kind', t) _).mp ht
        cases b with
        | none => cases heq
        | some r => exact .inr ⟨kind', r.1, r.2, heq, .inl ⟨rfl, hb⟩⟩
      | choice_next ht hrest =>
        obtain ⟨b, hb, heq⟩ := (has (kind', t) _).mp ht
        cases b with
        | some r => cases heq
        | none =>
          rcases ih.mp hrest with ⟨rfl, hnone⟩ | ⟨kind, ms, mid, rfl, hfirst⟩
          · exact .inl ⟨rfl, List.forall_mem_cons.mpr ⟨hb, hnone⟩⟩
          · exact .inr ⟨kind, ms, mid, rfl, .inr ⟨hb, hfirst⟩⟩
    · rintro (⟨rfl, hnone⟩ | ⟨kind, ms, mid, rfl, ⟨rfl, ht⟩ | ⟨ht, hfirst⟩⟩)
      · obtain ⟨ht, hrest⟩ := List.forall_mem_cons.mp hnone
        exact .choice_next ((has (kind', t) _).mpr ⟨none, ht, rfl⟩) (ih.mpr (.inl ⟨rfl, hrest⟩))
      · exact .choice_here ((has (kind', t) _).mpr ⟨some (ms, mid), ht, rfl⟩)
      · exact .choice_next ((has (kind', t) _).mpr ⟨none, ht, rfl⟩)
          (ih.mpr (.inr ⟨kind, ms, mid, rfl, hfirst⟩))

/-- Tails as alternatives, each under its node. -/
theorem parses_ofTails : Parses m f (.term (.ofTails tails)) pos a ↔
    (a = none ∧ ∀ tail ∈ tails, Parses m f (.term tail.2) pos none) ∨
    ∃ kind ms mid, a = some ([.node kind ms], mid) ∧ m.FirstTail f pos kind (ms, mid) tails := by
  refine parses_choice_map (fun kind ms => [.node kind ms]) fun tail a => ?_
  constructor
  · intro h
    cases h with
    | terminal ht => cases ht
    | node hbody => exact ⟨_, hbody, rfl⟩
  · rintro ⟨b, hb, rfl⟩
    exact .node hb

/-- Tails as alternatives, without nodes. -/
theorem parses_bodies : Parses m f (.term (.choice (tails.map (·.2)))) pos a ↔
    (a = none ∧ ∀ tail ∈ tails, Parses m f (.term tail.2) pos none) ∨
    ∃ kind ms mid, a = some (ms, mid) ∧ m.FirstTail f pos kind (ms, mid) tails :=
  parses_choice_map (fun _ ms => ms) fun tail a => by simp

/-- **The rounds of a fold**: they always end in a match, of what they make of the trees before
them. -/
theorem exists_rounds (h : Parses m f (.rounds tails left ns) pos a) :
    ∃ rounds stop, a = some (Match.nested ns rounds, stop) ∧
      m.Rounds f tails left pos rounds stop := by
  generalize hgoal : Goal.rounds tails left ns = goal at h
  induction h generalizing left ns with
  | rounds_spent =>
    cases hgoal
    exact ⟨[], _, rfl, .spent⟩
  | rounds_end hleft hnone =>
    cases hgoal
    rcases parses_ofTails.mp hnone with ⟨-, hall⟩ | ⟨_, _, _, heq, -⟩
    · exact ⟨[], _, rfl, .ended hleft hall⟩
    · cases heq
  | rounds_more hleft hround _ _ ih =>
    cases hgoal
    rcases parses_ofTails.mp hround with ⟨heq, -⟩ | ⟨_, _, _, heq, hfirst⟩
    · cases heq
    · cases heq
      obtain ⟨rounds, stop, rfl, hrounds⟩ := ih rfl
      exact ⟨(_, _) :: rounds, stop, rfl, .more hleft hfirst hrounds⟩
  | _ => cases hgoal

/-- Rounds are the rounds of a fold, whatever trees are before them. -/
theorem Rounds.parses (h : m.Rounds f tails left pos rounds stop) : ∀ ns : List Match,
    Parses m f (.rounds tails left ns) pos (some (Match.nested ns rounds, stop)) := by
  induction h with
  | spent => exact fun _ => .rounds_spent
  | ended hleft hnone =>
    exact fun _ => .rounds_end hleft (parses_ofTails.mpr (.inl ⟨rfl, hnone⟩))
  | more hleft hfirst _ ih =>
    intro ns
    exact .rounds_more hleft (parses_ofTails.mpr (.inr ⟨_, _, _, rfl, hfirst⟩)) (ih _)

/-- **A fold is its operand, nested in rounds.**  It fails where its operand does, and only
there. -/
theorem parses_fold {operand : Term} : Parses m f (.term (.fold operand tails max)) pos a ↔
    (a = none ∧ Parses m f (.term operand) pos none) ∨
    ∃ ns mid rounds stop, Parses m f (.term operand) pos (some (ns, mid)) ∧
      m.Rounds f tails max mid rounds stop ∧ a = some (Match.nested ns rounds, stop) := by
  constructor
  · intro h
    cases h with
    | terminal ht => cases ht
    | fold_fail hoperand => exact .inl ⟨rfl, hoperand⟩
    | fold_rounds hoperand hrounds =>
      obtain ⟨rounds, stop, rfl, hends⟩ := exists_rounds hrounds
      exact .inr ⟨_, _, rounds, stop, hoperand, hends, rfl⟩
  · rintro (⟨rfl, hoperand⟩ | ⟨ns, mid, rounds, stop, hoperand, hrounds, rfl⟩)
    · exact .fold_fail hoperand
    · exact .fold_rounds hoperand (hrounds.parses ns)

/-! ## Repetitions -/

/-- At no place does one of the tails match nothing. -/
def NeverIdle (m : Machine) (f : Flags) (tails : List (Kind × Term)) : Prop :=
  ∀ tail ∈ tails, ∀ pos ns, ¬ Parses m f (.term tail.2) pos (some (ns, pos))

/-- A round that is not idle leaves its place. -/
theorem FirstTail.stop_ne (h : m.FirstTail f pos kind (ms, mid) tails)
    (hidle : m.NeverIdle f tails) : mid ≠ pos := by
  rintro rfl
  obtain ⟨tail, htail, ht⟩ := h.exists_mem
  exact hidle tail htail _ _ ht

/-- Rounds, as a repetition of the tails. -/
theorem Rounds.parses_upTo (h : m.Rounds f tails left pos rounds stop)
    (hidle : m.NeverIdle f tails) :
    Parses m f (.term (.upTo (.choice (tails.map (·.2))) left)) pos
      (some (rounds.flatMap (·.2), stop)) := by
  induction h with
  | spent => exact .seq_nil
  | @ended left pos hleft hnone =>
    have hfails := parses_bodies.mpr (.inl ⟨rfl, hnone⟩)
    rcases left with _ | _ | n
    · exact .star_fail hfails
    · exact absurd rfl hleft
    · exact .opt (.seq_fail hfails)
  | @more left pos mid stop kind ms rounds hleft hfirst _ ih =>
    have hround := parses_bodies.mpr (.inr ⟨kind, ms, mid, rfl, hfirst⟩)
    rcases left with _ | _ | n
    · exact .star_more hround (hfirst.stop_ne hidle) ih
    · exact absurd rfl hleft
    · have hrest := Parses.seq_cons ih .seq_nil
      simpa [Term.upTo, Term.atMost] using Parses.opt (.seq_cons hround hrest)

/-- A repetition of the tails without a limit, in rounds. -/
theorem rounds_of_parses_star
    (h : Parses m f (.term (.star (.choice (tails.map (·.2))))) pos a)
    (hidle : m.NeverIdle f tails) :
    ∃ rounds stop, a = some (rounds.flatMap (·.2), stop) ∧
      m.Rounds f tails none pos rounds stop := by
  generalize hgoal : Goal.term (.star (.choice (tails.map (·.2)))) = goal at h
  induction h with
  | terminal ht =>
    cases hgoal
    cases ht
  | star_fail hround =>
    cases hgoal
    rcases parses_bodies.mp hround with ⟨-, hnone⟩ | ⟨_, _, _, heq, -⟩
    · exact ⟨[], _, rfl, .ended (by simp) hnone⟩
    · cases heq
  | star_empty hround =>
    cases hgoal
    rcases parses_bodies.mp hround with ⟨heq, -⟩ | ⟨_, _, _, heq, hfirst⟩
    · cases heq
    · cases heq
      exact absurd rfl (hfirst.stop_ne hidle)
  | star_more hround _ _ _ ih =>
    cases hgoal
    rcases parses_bodies.mp hround with ⟨heq, -⟩ | ⟨kind, _, _, heq, hfirst⟩
    · cases heq
    · cases heq
      obtain ⟨rounds, stop, rfl, hrounds⟩ := ih hidle rfl
      exact ⟨(kind, _) :: rounds, stop, by simp, .more (by simp) hfirst hrounds⟩
  | _ => cases hgoal

/-- A repetition of the tails at most so many times, in rounds. -/
theorem rounds_of_parses_atMost (n : Nat) : ∀ {pos a},
    Parses m f (.term ((Term.choice (tails.map (·.2))).atMost n)) pos a →
      ∃ rounds stop, a = some (rounds.flatMap (·.2), stop) ∧
        m.Rounds f tails (some n) pos rounds stop := by
  induction n with
  | zero =>
    intro pos a h
    cases h with
    | terminal ht => cases ht
    | seq_nil => exact ⟨[], pos, rfl, .spent⟩
  | succ n ih =>
    intro pos a h
    cases h with
    | terminal ht => cases ht
    | opt hseq =>
      cases hseq with
      | terminal ht => cases ht
      | seq_fail hround =>
        rcases parses_bodies.mp hround with ⟨-, hnone⟩ | ⟨_, _, _, heq, -⟩
        · exact ⟨[], pos, rfl, .ended (by simp) hnone⟩
        · cases heq
      | seq_cons hround hrest =>
        rcases parses_bodies.mp hround with ⟨heq, -⟩ | ⟨kind, ms, mid, heq, hfirst⟩
        · cases heq
        · cases heq
          cases hrest with
          | terminal ht => cases ht
          | seq_fail hrest =>
            obtain ⟨rounds, stop, heq, -⟩ := ih hrest
            cases heq
          | seq_cons hrest hnil =>
            obtain ⟨rounds, stop, heq, hrounds⟩ := ih hrest
            cases heq
            cases hnil with
            | terminal ht => cases ht
            | seq_nil =>
              exact ⟨(kind, _) :: rounds, _, by simp, .more (by simp) hfirst hrounds⟩

/-- **A repetition of the tails, in rounds.** -/
theorem rounds_of_parses_upTo (hidle : m.NeverIdle f tails)
    (h : Parses m f (.term (.upTo (.choice (tails.map (·.2))) left)) pos a) :
    ∃ rounds stop, a = some (rounds.flatMap (·.2), stop) ∧
      m.Rounds f tails left pos rounds stop := by
  cases left with
  | none => exact rounds_of_parses_star h hidle
  | some n => exact rounds_of_parses_atMost n h

/-- **A fold without its nodes** is its operand, and behind it the trees of the rounds. -/
theorem parses_unnested (hidle : m.NeverIdle f tails) {operand : Term} :
    Parses m f (.term (.unnested operand tails max)) pos a ↔
      (a = none ∧ Parses m f (.term operand) pos none) ∨
      ∃ ns mid rounds stop, Parses m f (.term operand) pos (some (ns, mid)) ∧
        m.Rounds f tails max mid rounds stop ∧ a = some (ns ++ rounds.flatMap (·.2), stop) := by
  constructor
  · intro h
    cases h with
    | terminal ht => cases ht
    | seq_fail hoperand => exact .inl ⟨rfl, hoperand⟩
    | seq_cons hoperand hrest =>
      cases hrest with
      | terminal ht => cases ht
      | seq_fail hrest =>
        obtain ⟨rounds, stop, heq, -⟩ := rounds_of_parses_upTo hidle hrest
        cases heq
      | seq_cons hrest hnil =>
        obtain ⟨rounds, stop, heq, hrounds⟩ := rounds_of_parses_upTo hidle hrest
        cases heq
        cases hnil with
        | terminal ht => cases ht
        | seq_nil => exact .inr ⟨_, _, rounds, _, hoperand, hrounds, by simp⟩
  · rintro (⟨rfl, hoperand⟩ | ⟨ns, mid, rounds, stop, hoperand, hrounds, rfl⟩)
    · exact .seq_fail hoperand
    · have hrest := Parses.seq_cons (hrounds.parses_upTo hidle) .seq_nil
      simpa [Term.unnested] using Parses.seq_cons hoperand hrest

/-- **A fold and what it is without its nodes** stop at the same places with the same leaves. -/
theorem parses_fold_iff_unnested (hidle : m.NeverIdle f tails) {operand : Term}
    {leaves : List Match} :
    (∃ ns, Parses m f (.term (.fold operand tails max)) pos (some (ns, stop)) ∧
      Match.leavesAll ns = leaves) ↔
    ∃ ns, Parses m f (.term (.unnested operand tails max)) pos (some (ns, stop)) ∧
      Match.leavesAll ns = leaves := by
  constructor
  · rintro ⟨trees, hfold, rfl⟩
    rcases parses_fold.mp hfold with ⟨heq, -⟩ | ⟨ns, mid, rounds, stop', hoperand, hrounds, heq⟩
    · cases heq
    · cases heq
      refine ⟨ns ++ rounds.flatMap (·.2), (parses_unnested hidle).mpr (.inr ?_), ?_⟩
      · exact ⟨ns, mid, rounds, stop, hoperand, hrounds, rfl⟩
      · exact (Match.leavesAll_nested rounds ns).symm
  · rintro ⟨trees, hflat, rfl⟩
    rcases (parses_unnested hidle).mp hflat with
      ⟨heq, -⟩ | ⟨ns, mid, rounds, stop', hoperand, hrounds, heq⟩
    · cases heq
    · cases heq
      refine ⟨Match.nested ns rounds, parses_fold.mpr (.inr ?_), Match.leavesAll_nested rounds ns⟩
      exact ⟨ns, mid, rounds, stop, hoperand, hrounds, rfl⟩

/-! ## Rounds come to an end -/

/-- All matches of a term leave less to read than there was. -/
def Consumes (m : Machine) (f : Flags) (t : Term) : Prop :=
  ∀ pos ns stop, Parses m f (.term t) pos (some (ns, stop)) → m.remaining stop < m.remaining pos

/-- Of tails that all have an answer, one is the first that matches, or none does. -/
theorem firstTail_or_none
    (hanswers : ∀ tail ∈ tails, ∀ pos, ∃ a, Parses m f (.term tail.2) pos a) (pos : Pos) :
    (∃ kind r, m.FirstTail f pos kind r tails) ∨
      ∀ tail ∈ tails, Parses m f (.term tail.2) pos none := by
  induction tails with
  | nil => exact .inr (by simp)
  | cons tail tails ih =>
    obtain ⟨htail, hrest⟩ := List.forall_mem_cons.mp hanswers
    obtain ⟨a, ha⟩ := htail pos
    cases a with
    | some r => exact .inl ⟨tail.1, r, .inl ⟨rfl, ha⟩⟩
    | none =>
      rcases ih hrest with ⟨kind, r, hfirst⟩ | hnone
      · exact .inl ⟨kind, r, .inr ⟨ha, hfirst⟩⟩
      · exact .inr (List.forall_mem_cons.mpr ⟨ha, hnone⟩)

/-- **Rounds end** if there are only so many of them, or if all tails consume, so that each round
leaves less to read. -/
theorem exists_rounds_of_consumes
    (hanswers : ∀ tail ∈ tails, ∀ pos, ∃ a, Parses m f (.term tail.2) pos a) (n : Nat) :
    ∀ left pos, (left = none → ∀ tail ∈ tails, m.Consumes f tail.2) →
      left.getD (m.remaining pos) < n → ∃ rounds stop, m.Rounds f tails left pos rounds stop := by
  induction n with
  | zero => exact fun _ _ _ h => absurd h (Nat.not_lt_zero _)
  | succ n ih =>
    intro left pos hconsumes hn
    by_cases hleft : left = some 0
    · subst hleft
      exact ⟨[], pos, .spent⟩
    · rcases firstTail_or_none hanswers pos with ⟨kind, ⟨ms, mid⟩, hfirst⟩ | hfails
      · obtain ⟨tail, htail, ht⟩ := hfirst.exists_mem
        have hless : (left.map (· - 1)).getD (m.remaining mid) < n := by
          rcases left with _ | _ | k
          · have hless := hconsumes rfl tail htail pos ms mid ht
            simp only [Option.getD_none, Option.map_none] at hn ⊢
            omega
          · exact absurd rfl hleft
          · simpa using hn
        obtain ⟨rounds, stop, hrounds⟩ :=
          ih (left.map (· - 1)) mid (fun hnone => hconsumes (by simpa using hnone)) hless
        exact ⟨(kind, ms) :: rounds, stop, .more hleft hfirst hrounds⟩
      · exact ⟨[], pos, .ended hleft hfails⟩

/-! ## Folds of a machine -/

section

variable {s s' : State}

/-- Rounds never fail. -/
theorem foldFrom_ne_failed (eval : Evaluator) (tails : List (Kind × Term)) (max : Option Nat)
    (mark fuel : Nat) : ∀ folded pos s s',
      foldFrom eval tails max mark fuel folded pos s ≠ .failed s' := by
  induction fuel with
  | zero =>
    intro folded pos s s' h
    cases h
  | succ fuel ih =>
    intro folded pos s s' h
    rw [foldFrom_succ] at h
    split at h
    · cases h
    · cases hround : tailFrom eval mark pos tails s with
      | matched stop s₁ =>
        rw [hround] at h
        exact ih _ _ _ _ h
      | failed s₁ =>
        rw [hround] at h
        cases h
      | fault f =>
        rw [hround] at h
        cases h

/-- A fold fails when its operand does, and leaves the same state. -/
theorem eval_fold_eq_failed_iff {operand : Term} {fuel : Nat} :
    m.eval (fuel + 1) (.fold operand tails max) pos s = .failed s' ↔
      m.eval fuel operand pos s = .failed s' := by
  rw [eval, step_fold]
  cases hoperand : m.eval fuel operand pos s with
  | matched stop s₁ =>
    simp only [Outcome.resume, reduceCtorEq, iff_false]
    exact foldFrom_ne_failed _ _ _ _ _ _ _ _ _
  | failed s₁ => simp [Outcome.resume]
  | fault f => simp [Outcome.resume]

/-- Without limits, what is matched is put behind the output, and is the answer. -/
theorem parses_of_eval_matched {t : Term} {fuel : Nat} (hlim : m.IsUnlimited)
    (hlive : s.halted = false) (htrue : m.MemoTrue s.memo)
    (h : m.eval fuel t pos s = .matched stop s') :
    ∃ ns, s.Extends s' ns ∧ s'.halted = false ∧ m.MemoTrue s'.memo ∧
      Parses m s.flags (.term t) pos (some (ns, stop)) := by
  have hfaith := m.eval_isFaithful fuel t pos s
  rw [h] at hfaith
  obtain ⟨ns, hext, -, hsound, hnone⟩ := hfaith
  have hlive' := hnone hlim hlive
  exact ⟨ns, hext, hlive', hsound hlive' htrue⟩

/-- Without limits, a failure is the answer. -/
theorem parses_of_eval_failed {t : Term} {fuel : Nat} (hlim : m.IsUnlimited)
    (hlive : s.halted = false) (htrue : m.MemoTrue s.memo) (h : m.eval fuel t pos s = .failed s') :
    Parses m s.flags (.term t) pos none := by
  have hfaith := m.eval_isFaithful fuel t pos s
  rw [h] at hfaith
  obtain ⟨-, -, hsound, hnone⟩ := hfaith
  exact (hsound (hnone hlim hlive) htrue).2

/-- The places and states that the evaluation of a fold comes to: behind its operand, behind a tail
that matched, with what it wraps, and at the next tail after one that failed. -/
inductive FoldReaches (m : Machine) (operand : Term) (tails : List (Kind × Term)) (pos : Pos)
    (s : State) : Pos → State → Prop where
  | operand {fuel : Nat} {mid : Pos} {s₁ : State} :
      m.eval fuel operand pos s = .matched mid s₁ → FoldReaches m operand tails pos s mid s₁
  | matched {fuel : Nat} {mid stop : Pos} {s₁ s₂ : State} {tail : Kind × Term} :
      FoldReaches m operand tails pos s mid s₁ → tail ∈ tails →
      m.eval fuel tail.2 mid s₁ = .matched stop s₂ →
      FoldReaches m operand tails pos s stop (s₂.wrap s.out.size tail.1)
  | failed {fuel : Nat} {mid : Pos} {s₁ s₂ : State} {tail : Kind × Term} :
      FoldReaches m operand tails pos s mid s₁ → tail ∈ tails →
      m.eval fuel tail.2 mid s₁ = .failed s₂ →
      FoldReaches m operand tails pos s mid (s₂.truncate s₁.out.size)

/-- Wherever a fold comes to, each of its tails comes to an end; and unless there are only so many
rounds, it leaves less to read when it matches. -/
structure TailsEnd (m : Machine) (operand : Term) (tails : List (Kind × Term)) (max : Option Nat)
    (pos : Pos) (s : State) : Prop where
  ends {mid s₁} : m.FoldReaches operand tails pos s mid s₁ → ∀ tail ∈ tails,
    ∃ fuel s₂, (m.eval fuel tail.2 mid s₁).state? = some s₂
  consumes {mid s₁} : max = none → m.FoldReaches operand tails pos s mid s₁ → ∀ tail ∈ tails,
    ∀ fuel stop s₂, m.eval fuel tail.2 mid s₁ = .matched stop s₂ →
      m.remaining stop < m.remaining mid

section

variable {operand : Term} {muted : Nat} (hlim : m.IsUnlimited) (hs : m.InOrder f muted s)
include hlim hs

/-- Without limits an evaluation leaves a state in order. -/
theorem inOrder_of_state? {t : Term} {fuel : Nat} (h : (m.eval fuel t pos s).state? = some s') :
    m.InOrder f muted s' :=
  (((m.eval_isFaithful fuel t pos s).inOrder hlim hs).of_state? h).1

theorem FoldReaches.inOrder {mid : Pos} {s₁ : State}
    (h : m.FoldReaches operand tails pos s mid s₁) : m.InOrder f muted s₁ := by
  induction h with
  | operand ho => exact inOrder_of_state? hlim hs (congrArg Outcome.state? ho)
  | matched _ _ ho ih =>
    exact (inOrder_of_state? hlim ih (congrArg Outcome.state? ho)).of_same rfl rfl rfl rfl
  | failed _ _ ho ih =>
    exact (inOrder_of_state? hlim ih (congrArg Outcome.state? ho)).of_same rfl rfl rfl rfl

/-- Tails that always come to an end, and consume. -/
theorem tailsEnd_of_consumes (hconsumes : max = none → ∀ tail ∈ tails, m.Consumes f tail.2)
    (hends : ∀ tail ∈ tails, ∀ pos s, ∃ fuel s', (m.eval fuel tail.2 pos s).state? = some s') :
    m.TailsEnd operand tails max pos s where
  ends _ tail htail := hends tail htail _ _
  consumes hnone hreaches tail htail fuel stop s₂ ho := by
    have hs₁ := hreaches.inOrder hlim hs
    obtain ⟨ns, -, -, -, hparses⟩ := parses_of_eval_matched hlim hs₁.live hs₁.memo ho
    rw [hs₁.flags] at hparses
    exact hconsumes hnone tail htail _ ns stop hparses

/-- A round ends: a tail matches, or none does, with any fuel from some fuel on. -/
theorem tailFrom_ends_of_reaches (hends : m.TailsEnd operand tails max pos s) {mid : Pos}
    (rest : List (Kind × Term)) (hrest : ∀ tail ∈ rest, tail ∈ tails) :
    ∀ s₁, m.FoldReaches operand tails pos s mid s₁ → ∃ enough,
      (∃ stop s₂, m.FoldReaches operand tails pos s stop s₂ ∧
        (max = none → m.remaining stop < m.remaining mid) ∧ ∀ fuel, enough ≤ fuel →
          tailFrom (m.eval fuel) s.out.size mid rest s₁ = .matched stop s₂) ∨
      ∃ s₂, ∀ fuel, enough ≤ fuel →
        tailFrom (m.eval fuel) s.out.size mid rest s₁ = .failed s₂ := by
  induction rest with
  | nil => exact fun s₁ _ => ⟨0, .inr ⟨s₁, fun _ _ => rfl⟩⟩
  | cons tail rest ih =>
    intro s₁ hreaches
    obtain ⟨htail, hrest⟩ := List.forall_mem_cons.mp hrest
    obtain ⟨enough, s₂, hs₂⟩ := hends.ends hreaches tail htail
    have hlive₂ := (inOrder_of_state? hlim (hreaches.inOrder hlim hs) hs₂).live
    have hsame : ∀ fuel, enough ≤ fuel →
        m.eval fuel tail.2 mid s₁ = m.eval enough tail.2 mid s₁ := fun fuel hle =>
      eval_eq_of_le hle hs₂ hlive₂
    cases ho : m.eval enough tail.2 mid s₁ with
    | matched stop s₃ =>
      refine ⟨enough, .inl ⟨stop, s₃.wrap s.out.size tail.1, .matched hreaches htail ho,
        fun hnone => hends.consumes hnone hreaches tail htail enough stop s₃ ho,
        fun fuel hle => ?_⟩⟩
      rw [tailFrom_cons, hsame fuel hle, ho]
      rfl
    | failed s₃ =>
      obtain ⟨enough', hround⟩ := ih hrest _ (.failed hreaches htail ho)
      have hnext : ∀ fuel, enough + enough' ≤ fuel →
          tailFrom (m.eval fuel) s.out.size mid (tail :: rest) s₁ =
            tailFrom (m.eval fuel) s.out.size mid rest (s₃.truncate s₁.out.size) := by
        intro fuel hle
        rw [tailFrom_cons, hsame fuel (by omega), ho]
        rfl
      rcases hround with ⟨stop, s₄, hreaches', hless, hmatched⟩ | ⟨s₄, hfailed⟩
      · exact ⟨enough + enough', .inl ⟨stop, s₄, hreaches', hless, fun fuel hle =>
          (hnext fuel hle).trans (hmatched fuel (by omega))⟩⟩
      · exact ⟨enough + enough', .inr ⟨s₄, fun fuel hle =>
          (hnext fuel hle).trans (hfailed fuel (by omega))⟩⟩
    | fault f =>
      rw [ho] at hs₂
      cases hs₂

/-- The rounds end: there are only so many, or each leaves less to read. -/
theorem foldFrom_ends_of_reaches (hends : m.TailsEnd operand tails max pos s) (n : Nat) :
    ∀ folded mid s₁, m.FoldReaches operand tails pos s mid s₁ →
      (max.map (· - folded)).getD (m.remaining mid) < n → ∃ enough stop s₂, ∀ fuel, enough ≤ fuel →
        ∀ rounds, n ≤ rounds →
          foldFrom (m.eval fuel) tails max s.out.size rounds folded mid s₁ = .matched stop s₂ := by
  induction n with
  | zero => exact fun _ _ _ _ h => absurd h (Nat.not_lt_zero _)
  | succ n ih =>
    intro folded mid s₁ hreaches hn
    by_cases hspent : max.any (· ≤ folded) = true
    · refine ⟨0, mid, s₁, fun fuel _ rounds hle => ?_⟩
      obtain ⟨rounds, rfl⟩ := Nat.exists_eq_add_one_of_ne_zero (Nat.ne_zero_of_lt hle)
      rw [foldFrom_succ, if_pos hspent]
    · obtain ⟨enough, hround⟩ :=
        tailFrom_ends_of_reaches hlim hs hends tails (fun _ h => h) s₁ hreaches
      rcases hround with ⟨stop, s₂, hreaches', hless, hmatched⟩ | ⟨s₂, hfailed⟩
      · have hless' : (max.map (· - (folded + 1))).getD (m.remaining stop) < n := by
          cases max with
          | none =>
            have hless := hless rfl
            simp only [Option.map_none, Option.getD_none] at hn ⊢
            omega
          | some k =>
            simp only [Option.any_some, decide_eq_true_eq, Option.map_some, Option.getD_some]
              at hspent hn ⊢
            omega
        obtain ⟨enough', stop', s₃, hrest⟩ := ih (folded + 1) stop s₂ hreaches' hless'
        refine ⟨enough + enough', stop', s₃, fun fuel hle rounds hrounds => ?_⟩
        obtain ⟨rounds, rfl⟩ := Nat.exists_eq_add_one_of_ne_zero (Nat.ne_zero_of_lt hrounds)
        rw [foldFrom_succ, if_neg hspent, hmatched fuel (by omega)]
        exact hrest fuel (by omega) rounds (by omega)
      · refine ⟨enough, mid, s₂, fun fuel hle rounds hrounds => ?_⟩
        obtain ⟨rounds, rfl⟩ := Nat.exists_eq_add_one_of_ne_zero (Nat.ne_zero_of_lt hrounds)
        rw [foldFrom_succ, if_neg hspent, hfailed fuel hle]
        rfl

/-- **A fold matches if its operand does**, when its tails come to an end. -/
theorem exists_eval_fold (hends : m.TailsEnd operand tails max pos s) :
    (∃ fuel stop s', m.eval fuel (.fold operand tails max) pos s = .matched stop s') ↔
      ∃ fuel stop s', m.eval fuel operand pos s = .matched stop s' := by
  constructor
  · rintro ⟨fuel, stop, s', h⟩
    cases fuel with
    | zero => cases h
    | succ fuel =>
      rw [eval, step_fold] at h
      cases ho : m.eval fuel operand pos s with
      | matched mid s₁ => exact ⟨fuel, mid, s₁, ho⟩
      | failed s₁ =>
        rw [ho] at h
        cases h
      | fault f =>
        rw [ho] at h
        cases h
  · rintro ⟨enough, mid, s₁, ho⟩
    have hs₁ : (m.eval enough operand pos s).state? = some s₁ := congrArg Outcome.state? ho
    have hlive₁ := (inOrder_of_state? hlim hs hs₁).live
    obtain ⟨enough', stop, s₂, hfold⟩ :=
      foldFrom_ends_of_reaches hlim hs hends _ 0 mid s₁ (.operand ho) (Nat.lt_succ_self _)
    refine ⟨enough + enough' + m.remaining mid + 2, stop, s₂, ?_⟩
    rw [eval, step_fold, eval_eq_of_le (by omega) hs₁ hlive₁, ho]
    refine hfold _ (by omega) _ ?_
    cases max with
    | none =>
      simp only [foldRounds, Option.map_none, Option.getD_none]
      omega
    | some k => simp [foldRounds]

end

/-- What one term matches another matches up to the same place, with the same leaves: then so it is
for their evaluations, where no rule is being evaluated. -/
theorem exists_eval_of_parses_imp {t t' : Term} {leaves : List Match} (hlim : m.IsUnlimited)
    (hlive : s.halted = false) (htrue : m.MemoTrue s.memo) (hpos : ¬ m.IsLost pos)
    (hquiet : ∀ key, s.memo.get? key ≠ some .inProgress)
    (himp : ∀ ns, Parses m s.flags (.term t) pos (some (ns, stop)) →
      ∃ ms, Parses m s.flags (.term t') pos (some (ms, stop)) ∧
        Match.leavesAll ms = Match.leavesAll ns)
    (h : ∃ fuel s', m.eval fuel t pos s = .matched stop s' ∧
      Match.leavesAll s'.out.toList = leaves) :
    ∃ fuel s', m.eval fuel t' pos s = .matched stop s' ∧
      Match.leavesAll s'.out.toList = leaves := by
  obtain ⟨fuel, s', heval, rfl⟩ := h
  obtain ⟨ns, hext, -, -, hparses⟩ := parses_of_eval_matched hlim hlive htrue heval
  obtain ⟨ms, hparses', hleaves⟩ := himp ns hparses
  obtain ⟨enough, hevals⟩ := eval_of_parses hlim hparses' ⟨rfl, rfl, hlive, htrue⟩ hpos hquiet
  obtain ⟨s₁, heval', hext'⟩ := (hevals enough (Nat.le_refl _)).1 ms stop rfl
  exact ⟨enough, s₁, heval', by simp [hext.out, hext'.out, hleaves]⟩

/-- **A fold is greedy repetition and left nesting.**  In a state without limits, let no tail match
nothing at any place.  Then a fold fails as its operand does, and where its tails come to an end it
matches if its operand does.  Its trees are the operand's, wrapped in round after round; and it
stops where the operand with a repetition of the tails behind it does, with the same leaves.  Where
no rule is being evaluated, each of the two comes to an end if the other does. -/
theorem eval_fold_eq_repetition {operand : Term} (hlim : m.IsUnlimited) (hlive : s.halted = false)
    (htrue : m.MemoTrue s.memo) (hidle : m.NeverIdle s.flags tails) :
    (∀ fuel s', m.eval (fuel + 1) (.fold operand tails max) pos s = .failed s' ↔
      m.eval fuel operand pos s = .failed s') ∧
    (m.TailsEnd operand tails max pos s →
      ((∃ fuel stop s', m.eval fuel (.fold operand tails max) pos s = .matched stop s') ↔
        ∃ fuel stop s', m.eval fuel operand pos s = .matched stop s')) ∧
    ((max = none → ∀ tail ∈ tails, m.Consumes s.flags tail.2) →
      (∀ tail ∈ tails, ∀ pos, ∃ a, Parses m s.flags (.term tail.2) pos a) →
      ((∃ r, Parses m s.flags (.term (.fold operand tails max)) pos (some r)) ↔
        ∃ r, Parses m s.flags (.term operand) pos (some r))) ∧
    (∀ fuel stop s', m.eval fuel (.fold operand tails max) pos s = .matched stop s' →
      ∃ ns mid rounds, Parses m s.flags (.term operand) pos (some (ns, mid)) ∧
        m.Rounds s.flags tails max mid rounds stop ∧ s.Extends s' (Match.nested ns rounds) ∧
        ∀ (i : Nat) (hi : i < rounds.length), Match.nested ns (rounds.take (i + 1)) =
          [.node rounds[i].1 (Match.nested ns (rounds.take i) ++ rounds[i].2)]) ∧
    (∀ stop leaves,
      (∃ ns, Parses m s.flags (.term (.fold operand tails max)) pos (some (ns, stop)) ∧
        Match.leavesAll ns = leaves) ↔
      ∃ ns, Parses m s.flags (.term (.unnested operand tails max)) pos (some (ns, stop)) ∧
        Match.leavesAll ns = leaves) ∧
    (∀ fuel fuel' stop s', m.eval fuel (.fold operand tails max) pos s = .matched stop s' →
      (∀ s₁, m.eval fuel' (.unnested operand tails max) pos s ≠ .failed s₁) ∧
      ∀ stop₁ s₁, m.eval fuel' (.unnested operand tails max) pos s = .matched stop₁ s₁ →
        stop₁ = stop ∧ Match.leavesAll s₁.out.toList = Match.leavesAll s'.out.toList) ∧
    (¬ m.IsLost pos → (∀ key, s.memo.get? key ≠ some .inProgress) → ∀ stop leaves,
      (∃ fuel s', m.eval fuel (.fold operand tails max) pos s = .matched stop s' ∧
        Match.leavesAll s'.out.toList = leaves) ↔
      ∃ fuel s', m.eval fuel (.unnested operand tails max) pos s = .matched stop s' ∧
        Match.leavesAll s'.out.toList = leaves) := by
  have hleaves : ∀ stop leaves,
      (∃ ns, Parses m s.flags (.term (.fold operand tails max)) pos (some (ns, stop)) ∧
        Match.leavesAll ns = leaves) ↔
      ∃ ns, Parses m s.flags (.term (.unnested operand tails max)) pos (some (ns, stop)) ∧
        Match.leavesAll ns = leaves := fun _ _ => parses_fold_iff_unnested hidle
  refine ⟨fun fuel s' => eval_fold_eq_failed_iff, exists_eval_fold hlim ⟨rfl, rfl, hlive, htrue⟩,
    fun hconsumes hanswers => ?_, fun fuel stop s' h => ?_, hleaves,
    fun fuel fuel' stop s' h => ?_, fun hpos hquiet stop leaves => ⟨?_, ?_⟩⟩
  · constructor
    · rintro ⟨r, hr⟩
      rcases parses_fold.mp hr with ⟨heq, -⟩ | ⟨ns, mid, rounds, stop, hoperand, -⟩
      · cases heq
      · exact ⟨_, hoperand⟩
    · rintro ⟨⟨ns, mid⟩, hoperand⟩
      obtain ⟨rounds, stop, hrounds⟩ :=
        exists_rounds_of_consumes hanswers _ max mid hconsumes (Nat.lt_succ_self _)
      exact ⟨_, parses_fold.mpr (.inr ⟨ns, mid, rounds, stop, hoperand, hrounds, rfl⟩)⟩
  · obtain ⟨trees, hext, -, -, hparses⟩ := parses_of_eval_matched hlim hlive htrue h
    rcases parses_fold.mp hparses with ⟨heq, -⟩ | ⟨ns, mid, rounds, stop', hoperand, hrounds, heq⟩
    · cases heq
    · cases heq
      exact ⟨ns, mid, rounds, hoperand, hrounds, hext, Match.nested_take_succ ns rounds⟩
  · obtain ⟨trees, hext, -, -, hfold⟩ := parses_of_eval_matched hlim hlive htrue h
    obtain ⟨flat, hflat, hsame⟩ := (hleaves stop _).mp ⟨trees, hfold, rfl⟩
    refine ⟨fun s₁ h₁ => ?_, fun stop₁ s₁ h₁ => ?_⟩
    · cases hflat.unique (parses_of_eval_failed hlim hlive htrue h₁)
    · obtain ⟨flat', hext', -, -, hflat'⟩ := parses_of_eval_matched hlim hlive htrue h₁
      cases hflat.unique hflat'
      simp [hext.out, hext'.out, hsame]
  · exact exists_eval_of_parses_imp hlim hlive htrue hpos hquiet fun ns hns =>
      (hleaves stop _).mp ⟨ns, hns, rfl⟩
  · exact exists_eval_of_parses_imp hlim hlive htrue hpos hquiet fun ns hns =>
      (hleaves stop _).mpr ⟨ns, hns, rfl⟩

end

/-! ## The conditions can be met -/

/-- A token that is not the end of the text is consumed. -/
theorem consumes_token (hkind : kind ≠ .eof) : m.Consumes f (.token kind) := by
  intro pos ns stop h
  have hread : some (ns, stop) = m.read? pos (.token kind) := h.unique (.terminal rfl)
  simp only [read?] at hread
  split_ifs at hread with hkind'
  cases hread
  have hlt : pos.index < m.tokens.size := index_lt_of_kindAt_ne (hkind' ▸ hkind)
  have hoffset := pos.offset.toNat_lt
  simp only [remaining, Pos.ordinal, UInt8.toNat_zero]
  omega

/-- Terms one behind the other consume if each does, and there are some. -/
theorem consumes_seq (ts : List Term) : ∀ {t}, m.Consumes f t →
    (∀ t ∈ ts, m.Consumes f t) → m.Consumes f (.seq (t :: ts)) := by
  induction ts with
  | nil =>
    intro t ht _ pos ns stop h
    generalize ha : some (ns, stop) = a at h
    cases h with
    | terminal h => cases h
    | seq_fail => cases ha
    | seq_cons hfirst hnil =>
      cases hnil with
      | terminal h => cases h
      | seq_nil =>
        cases ha
        exact ht _ _ _ hfirst
  | cons u ts ih =>
    intro t ht hts pos ns stop h
    obtain ⟨hu, hts⟩ := List.forall_mem_cons.mp hts
    generalize ha : some (ns, stop) = a at h
    cases h with
    | terminal h => cases h
    | seq_fail => cases ha
    | @seq_cons _ _ _ _ _ mid b hfirst hrest =>
      cases b with
      | none => cases ha
      | some r =>
        cases ha
        exact (ih hu hts _ _ _ hrest).trans (ht _ _ _ hfirst)

/-- Tails that consume never match nothing. -/
theorem neverIdle_of_consumes (hconsumes : ∀ tail ∈ tails, m.Consumes f tail.2) :
    m.NeverIdle f tails :=
  fun tail htail pos ns h => Nat.lt_irrefl _ (hconsumes tail htail pos ns pos h)

/-- Terms one behind the other have an answer if each does. -/
theorem exists_parses_seq (ts : List Term)
    (hts : ∀ t ∈ ts, ∀ pos, ∃ a, Parses m f (.term t) pos a) :
    ∀ pos, ∃ a, Parses m f (.term (.seq ts)) pos a := by
  induction ts with
  | nil => exact fun pos => ⟨_, .seq_nil⟩
  | cons t ts ih =>
    intro pos
    obtain ⟨ht, hts⟩ := List.forall_mem_cons.mp hts
    obtain ⟨a, ha⟩ := ht pos
    cases a with
    | none => exact ⟨_, .seq_fail ha⟩
    | some r =>
      obtain ⟨b, hb⟩ := ih hts r.2
      exact ⟨_, .seq_cons ha hb⟩

/-- Numbers and signs between them, as sums that group to the left. -/
def sumTails : List (Kind × Term) := [(.binExpr, .seq [.token .plus, .token .intNumber])]

/-- The sum of three numbers. -/
def sumMachine : Machine := ⟨⟨#[]⟩, #[⟨.intNumber, "1"⟩, ⟨.plus, "+"⟩, ⟨.intNumber, "2"⟩,
  ⟨.plus, "+"⟩, ⟨.intNumber, "3"⟩, ⟨.eof, ""⟩], {}⟩

theorem sumTails_consume : ∀ tail ∈ sumTails, sumMachine.Consumes {} tail.2 := by
  intro tail htail
  obtain rfl := List.mem_singleton.mp htail
  refine consumes_seq _ (consumes_token (by decide)) fun t ht => ?_
  obtain rfl := List.mem_singleton.mp ht
  exact consumes_token (by decide)

theorem sumTails_answer : ∀ tail ∈ sumTails, ∀ pos, ∃ a,
    Parses sumMachine {} (.term tail.2) pos a := by
  intro tail htail
  obtain rfl := List.mem_singleton.mp htail
  refine exists_parses_seq _ fun t ht pos => ⟨sumMachine.read? pos t, .terminal ?_⟩
  rcases List.mem_cons.mp ht with rfl | ht
  · rfl
  · obtain rfl := List.mem_singleton.mp ht
    rfl

/-- A token that is not the end of the text is read, or asked for in vain. -/
theorem exists_state?_of_token (hkind : kind ≠ .eof) (pos : Pos) (s : State) :
    ∃ s', (m.readToken kind pos s).state? = some s' := by
  have hreads := m.readToken_readsAs pos s kind
  cases ho : m.readToken kind pos s with
  | matched stop s' => exact ⟨s', rfl⟩
  | failed s' => exact ⟨s', rfl⟩
  | fault f =>
    rw [ho] at hreads
    -- what is left of a token that is not there has the kind of the end
    have hnone : m.tokens[pos.index]? = none := hreads.1.2
    have hend : m.kindAt pos = .eof := by simp [kindAt, hnone]
    simp [readToken, hend, hkind.symm] at ho

/-- Tokens one behind the other are read, or one of them is asked for in vain. -/
theorem exists_state?_of_tokens (mark : Nat) (kinds : List Kind) (hkinds : .eof ∉ kinds) :
    ∀ pos s, ∃ s', (seqFrom (m.eval 1) mark (kinds.map .token) pos s).state? = some s' := by
  induction kinds with
  | nil => exact fun pos s => ⟨s, rfl⟩
  | cons kind kinds ih =>
    intro pos s
    rw [List.mem_cons, not_or] at hkinds
    obtain ⟨s₁, hs₁⟩ := exists_state?_of_token (m := m) (Ne.symm hkinds.1) pos s
    rw [List.map_cons, seqFrom_cons]
    change ∃ s', ((m.readToken kind pos s).resume _ _).state? = some s'
    cases ho : m.readToken kind pos s with
    | matched stop s' => exact ih hkinds.2 stop s'
    | failed s' => exact ⟨_, rfl⟩
    | fault f =>
      rw [ho] at hs₁
      cases hs₁

theorem sumTails_end (tail : Kind × Term) (htail : tail ∈ sumTails) (pos : Pos) (s : State) :
    ∃ fuel s', (sumMachine.eval fuel tail.2 pos s).state? = some s' := by
  obtain rfl := List.mem_singleton.mp htail
  exact ⟨2, exists_state?_of_tokens _ [.plus, .intNumber] (by decide) pos s⟩

/-- The sum is a match, nested to the left. -/
theorem sumMachine_nests : sumMachine.NeverIdle {} sumTails ∧
    (∃ fuel stop s', sumMachine.eval fuel (.fold (.token .intNumber) sumTails none) {} {} =
      .matched stop s') ∧
    (∃ r, Parses sumMachine {} (.term (.fold (.token .intNumber) sumTails none)) {} (some r)) ∧
    ∃ ns mid rounds, Parses sumMachine {} (.term (.token .intNumber)) {} (some (ns, mid)) ∧
      sumMachine.Rounds {} sumTails none mid rounds ⟨5, 0⟩ ∧
      Match.nested ns rounds = [.node .binExpr [.node .binExpr [.token 0 .intNumber none,
        .token 1 .plus none, .token 2 .intNumber none], .token 3 .plus none,
        .token 4 .intNumber none]] := by
  have hidle := neverIdle_of_consumes sumTails_consume
  have hfold := @eval_fold_eq_repetition sumMachine sumTails {} none {} (.token .intNumber)
    ⟨rfl, rfl⟩ rfl sumMachine.memoTrue_empty hidle
  obtain ⟨-, hends, hmatches, hnested, -⟩ := hfold
  have htails : sumMachine.TailsEnd (.token .intNumber) sumTails none {} {} :=
    tailsEnd_of_consumes ⟨rfl, rfl⟩ ⟨rfl, rfl, rfl, sumMachine.memoTrue_empty⟩
      (fun _ => sumTails_consume) sumTails_end
  refine ⟨hidle, (hends htails).mpr ⟨1, _, _, rfl⟩,
    (hmatches (fun _ => sumTails_consume) sumTails_answer).mpr ⟨_, .terminal rfl⟩, ?_⟩
  obtain ⟨s', heval, hout⟩ : ∃ s', sumMachine.eval 8 (.fold (.token .intNumber) sumTails none) {} {}
      = .matched ⟨5, 0⟩ s' ∧ s'.out.toList = [.node .binExpr [.node .binExpr
        [.token 0 .intNumber none, .token 1 .plus none, .token 2 .intNumber none],
        .token 3 .plus none, .token 4 .intNumber none]] := ⟨_, rfl, rfl⟩
  obtain ⟨ns, mid, rounds, hoperand, hrounds, hext, -⟩ := hnested _ _ _ heval
  exact ⟨ns, mid, rounds, hoperand, hrounds, hext.out.symm.trans hout⟩

/-! ## A fold that does not end -/

/-- A rule that reads the end of the text as a token, behind a name. -/
def endMachine : Machine where
  grammar := ⟨#[⟨"e", none, none, none, .token .eof⟩]⟩
  tokens := #[⟨.ident, "x"⟩, ⟨.eof, ""⟩]

/-- That rule as the only tail. -/
def endTails : List (Kind × Term) := [(.binExpr, .ref (.linked 0))]

/-- A match of the tail moves on. -/
theorem endTails_neverIdle (f : Flags) : endMachine.NeverIdle f endTails := by
  intro tail htail pos ns h
  obtain rfl := List.mem_singleton.mp htail
  obtain ⟨id, rule, ms, hid, hrule, -, hbody⟩ := h.exists_body
  cases hid
  cases hrule
  have hread : some (ms, pos) = endMachine.read? pos (.token .eof) := hbody.unique (.terminal rfl)
  simp only [read?] at hread
  split_ifs at hread
  have hstop : pos = ⟨pos.index + 1, 0⟩ := congrArg Prod.snd (Option.some.inj hread)
  exact Nat.lt_irrefl _ (Nat.lt_of_lt_of_eq (Nat.lt_succ_self _) (congrArg Pos.index hstop).symm)

/-- Behind the name, nothing is known of the places from here on. -/
structure MayReadEnd (pos : Pos) (s : State) : Prop where
  whole : pos.offset = 0
  behind : 1 ≤ pos.index
  live : s.halted = false
  known : ∀ key e, s.memo.get? key = some e → key.pos.index < pos.index

/-- The tail matches once more, behind the end as well. -/
theorem MayReadEnd.tailFrom {pos : Pos} {s : State} (h : MayReadEnd pos s) (fuel mark : Nat) :
    ∃ stop s', Machine.tailFrom (endMachine.eval (fuel + 2)) mark pos endTails s =
      .matched stop s' ∧ MayReadEnd stop s' := by
  obtain ⟨hwhole, hbehind, hlive, hknown⟩ := h
  have hrule : endMachine.grammar.rules[0]? = some ⟨"e", none, none, none, .token .eof⟩ := rfl
  have hlimits : endMachine.limits = {} := rfl
  have hnone : s.memo.get? ⟨0, pos, s.flags⟩ = none := by
    refine Option.eq_none_iff_forall_ne_some.mpr fun e he => ?_
    exact Nat.lt_irrefl _ (hknown _ e he)
  have hend : endMachine.kindAt pos = .eof := by
    obtain ⟨i, hi⟩ : ∃ i, pos.index = i + 1 := ⟨pos.index - 1, by omega⟩
    cases i <;> simp [kindAt, endMachine, hi, Pos.isSplit, hwhole]
  have hsplit : pos.isSplit = false := by simp [Pos.isSplit, hwhole]
  rw [endTails, eval]
  simp only [Machine.tailFrom, step, Grammar.resolve?, hrule, applyRule, hlive, hlimits,
    Option.any_none, hnone, enterRule, eval, readToken, hend, leaf, hsplit]
  refine ⟨⟨pos.index + 1, 0⟩, _, rfl, rfl, Nat.le_add_left .., hlive, fun key e hkey => ?_⟩
  simp only [State.wrap, State.truncate, State.push, Memo.get?_insert] at hkey
  split at hkey
  · next heq =>
    subst heq
    exact Nat.lt_succ_self _
  · exact Nat.lt_succ_of_lt (hknown key e hkey)

/-- **A fold that reads the end of the text runs on.**  Its tail never matches nothing, and its
operand matches; but behind the last token there is one more end to read, again and again. -/
theorem fold_end_runs_on : endMachine.IsUnlimited ∧ endMachine.NeverIdle {} endTails ∧
    (∃ stop s, endMachine.eval 1 (.token .ident) {} {} = .matched stop s) ∧
    ∀ fuel, endMachine.eval fuel (.fold (.token .ident) endTails none) {} {} =
      .fault .outOfFuel := by
  refine ⟨⟨rfl, rfl⟩, endTails_neverIdle {}, ⟨_, _, rfl⟩, fun fuel => ?_⟩
  rcases fuel with _ | _ | _ | fuel
  · rfl
  · rfl
  · cbv
  · have hname : endMachine.eval (fuel + 2) (.token .ident) {} {} =
        .matched ⟨1, 0⟩ (State.push {} (.token 0 .ident none)) := rfl
    rw [eval, step_fold, hname]
    refine foldFrom_eq_outOfFuel (fun pos s hs => hs.tailFrom fuel _) _ 0 _ _
      (P := MayReadEnd) ⟨rfl, Nat.le_refl _, rfl, fun key e hkey => ?_⟩
    simp [State.push] at hkey

end Machine
end Peg
end Packrat
